import FloodEws.Chunks
import FloodEws.Elect
/-!
# Images — what a node hands out and what its buffer holds

The image a leader hands out is fixed by the leader, its term and the edge of its log: within a term a leader's buffer
only changes when it compacts, and then the edge moves up.  So every chunk on the wire is a slice of the image of its
`(leader, term, last included index)` (`Hands`).  The follower's side is different: one buffer holds the node's own
snapshot and the one being put together, and a chunk is copied to its offset with nothing but the term looked at.  What
the buffer holds (`Buffer`) is said relative to the chunk stored last.
-/
namespace FloodEws
namespace Raft

/-! ## What a call does about snapshots -/

/-- The callback neither sends a chunk nor saves nor loads a snapshot. -/
def Event.noSnap : Event → Bool
  | .send _ _ ⟨_, _, .installSnapshot _⟩ => false
  | .snapshotSave _ _ => false
  | .snapshotLoad _ _ => false
  | _ => true

theorem Event.noSnap_of_quiet {e : Event} (h : e.quiet = true) : e.noSnap = true := by
  cases e <;> first | rfl | cases h

/-- No chunk is sent and no snapshot loaded on the way from `x` to `y`. -/
structure NoSnap (x y : Server) : Prop where
  sent : ∀ m is, m.payload = .installSnapshot is → m ∈ y.sent → m ∈ x.sent
  loads : ∀ i bytes, .snapshotLoad i bytes ∈ y.calls → .snapshotLoad i bytes ∈ x.calls

theorem noSnap_append {x y : Server} (evs : List Event) (hc : y.calls = evs ++ x.calls)
    (h : ∀ e ∈ evs, e.noSnap = true) : NoSnap x y := by
  constructor
  · rintro ⟨a, b, p⟩ is hp hm
    obtain ⟨t, v, hev⟩ := mem_sent.1 hm
    rw [hc] at hev
    rcases List.mem_append.1 hev with hev | hev
    · have hp : p = .installSnapshot is := hp
      subst hp
      cases h _ hev
    · exact mem_sent.2 ⟨t, v, hev⟩
  · intro i bytes hev
    rw [hc] at hev
    rcases List.mem_append.1 hev with hev | hev
    · cases h _ hev
    · exact hev

theorem saves_noSnap {x y : Server} (evs : List Event) (hc : y.calls = evs ++ x.calls)
    (h : ∀ e ∈ evs, e.noSnap = true) : y.saves = x.saves := by
  refine saves_append evs hc (fun e he => ?_)
  have := h e he
  cases e <;> first | rfl | cases this

/-- **What a move does about snapshots**: nothing, or it makes the server leader, sends a chunk, stores one, or takes a
snapshot. -/
inductive SnapMove (cfg : Config) (io : Io) (heard : Option Message) (start x y : Server) : Prop where
  | idle (hk : Kept x y) (hn : NoSnap x y) (ht : x.currentTerm ≤ y.currentTerm)
      (hs : y.state = .follower ∨ (y.state = x.state ∧ y.currentTerm = x.currentTerm) ∨
        (y.state = .candidate ∧ x.currentTerm < y.currentTerm))
  | win (hk : Kept x y) (hn : NoSnap x y) (ht : y.currentTerm = x.currentTerm) (hs : x.state = .candidate)
      (hw : Server.Wins heard start x)
  | send (m : Message) (is : InstallSnapshot) (hm : m.payload = .installSnapshot is) (hc : Server.CanSend cfg x m)
      (hy : y = x.emit m)
  | store (m : Message) (is : InstallSnapshot) (hm : heard = some m) (his : m.payload = .installSnapshot is)
      (ht : is.term = x.currentTerm) (h0 : Server.Untouched start x) (hst : Stored cfg is x y)
      (hs : y.state = .follower) (hy : y.currentTerm = x.currentTerm)
      (hsent : ∀ m' is', m'.payload = .installSnapshot is' → m' ∈ y.sent → m' ∈ x.sent)
      (hload : ∀ i bytes, .snapshotLoad i bytes ∈ y.calls → .snapshotLoad i bytes ∈ x.calls ∨
        (is.done = true ∧ i = is.lastIncludedIndex ∧
          bytes = bytesAt (x.storeChunk cfg is).snapBuf 0 (x.storeChunk cfg is).snapLen))
  | save (bytes : List Byte) (hio : ∃ save k, io.snapshotSave = some save ∧ save k = some bytes)
      (hb : x.log.base < y.log.base) (hev : .snapshotSave y.log.base bytes ∈ y.calls) (hn : NoSnap x y)
      (hbuf : bytesAt y.snapBuf 0 y.snapLen = bytes) (hsaves : x.saves < y.saves) (hs : y.state = x.state)
      (ht : y.currentTerm = x.currentTerm)

section
variable {cfg : Config} {io : Io} {heard : Option Message} {start x y : Server}

/-- A move whose callbacks have nothing to do with snapshots. -/
theorem SnapMove.aside (evs : List Event) (hc : y.calls = evs ++ x.calls) (h : ∀ e ∈ evs, e.noSnap = true)
    (hbuf : y.snapBuf = x.snapBuf) (hlen : y.snapLen = x.snapLen) (hbase : y.log.base = x.log.base)
    (ht : x.currentTerm ≤ y.currentTerm)
    (hs : y.state = .follower ∨ (y.state = x.state ∧ y.currentTerm = x.currentTerm) ∨
      (y.state = .candidate ∧ x.currentTerm < y.currentTerm)) : SnapMove cfg io heard start x y :=
  .idle ⟨hbuf, hlen, hbase, saves_noSnap evs hc h⟩ (noSnap_append evs hc h) ht hs

open Server in
/-- **Every move is one of these.** -/
theorem Move.snap (hmv : Move cfg io True heard start x y) : SnapMove cfg io heard start x y := by
  have hnil : ∀ e ∈ ([] : List Event), e.noSnap = true := by simp
  have hone : ∀ e : Event, e.noSnap = true → ∀ e' ∈ [e], e'.noSnap = true := by
    intro e he e' he'
    rw [List.mem_singleton.1 he']
    exact he
  cases hmv with
  | quiet evs hq =>
    exact .aside evs rfl (fun e he => Event.noSnap_of_quiet (hq e he)) rfl rfl rfl (Nat.le_refl _) (.inr (.inl ⟨rfl, rfl⟩))
  | aim nodes hk hn => exact .aside [] rfl hnil rfl rfl rfl (Nat.le_refl _) (.inr (.inl ⟨rfl, rfl⟩))
  | adopt t ht => exact .aside [_] rfl (hone _ rfl) rfl rfl rfl (Nat.le_of_lt ht) (.inl rfl)
  | demote => exact .aside [] rfl hnil rfl rfl rfl (Nat.le_refl _) (.inl rfl)
  | campaign hs hf =>
    have hlt : x.currentTerm < wrap64 (x.currentTerm + 1) := by
      rw [wrap64, Nat.mod_eq_of_lt (hf trivial)]
      exact Nat.lt_succ_self _
    exact .aside [_] rfl (hone _ rfl) rfl rfl rfl (Nat.le_of_lt hlt) (.inr (.inr ⟨rfl, hlt⟩))
  | tally m rr p hm hrr hpre hg ht hs hp hn =>
    exact .aside [] rfl hnil rfl rfl rfl (Nat.le_refl _) (.inr (.inl ⟨rfl, rfl⟩))
  | promote hs hm hw => exact .win ⟨rfl, rfl, rfl, rfl⟩ (noSnap_append [] rfl hnil) rfl hs hw
  | propose e log hs ht hi hp =>
    exact .aside [_] rfl (hone _ rfl) rfl rfl (LogRing.push_base hp) (Nat.le_refl _) (.inr (.inl ⟨rfl, rfl⟩))
  | vote m rv hm hrv hpre ht hv hu =>
    exact .aside [_] rfl (hone _ rfl) rfl rfl rfl (Nat.le_refl _) (.inr (.inl ⟨rfl, rfl⟩))
  | emit m hsend =>
    obtain ⟨a, b, p⟩ := m
    cases p with
    | installSnapshot is => exact .send _ is rfl hsend rfl
    | _ => exact .aside [_] rfl (hone _ rfl) rfl rfl rfl (Nat.le_refl _) (.inr (.inl ⟨rfl, rfl⟩))
  | accept m ae hm hae ht hs hp h0 =>
    obtain ⟨evs, hq, he⟩ := accepted_eq cfg ae x
    rw [he]
    refine .aside (_ :: evs) rfl ?_ rfl rfl (LogRing.appendAll_base _ _ _) (Nat.le_refl _) (.inr (.inl ⟨rfl, rfl⟩))
    intro e hmem
    rcases List.mem_cons.1 hmem with rfl | hmem
    · rfl
    · exact Event.noSnap_of_quiet (hq e hmem)
  | chunk m is hm his ht hs hd h0 =>
    have hn : NoSnap x (x.storeChunk cfg is).core := noSnap_append [] (by rw [chunk_eq]; rfl) hnil
    refine .store m is hm his ht h0 ?_ (by rw [chunk_eq]; exact hs) (by rw [chunk_eq]; rfl) hn.sent
      (fun i bytes hev => .inl (hn.loads i bytes hev))
    refine ⟨rfl, rfl, ?_, ?_⟩
    · rw [hd, chunk_eq]; rfl
    · rw [chunk_eq]; rfl
  | install m is hm his ht hs hd h0 =>
    refine .store m is hm his ht h0 ?_ (by rw [installed_eq]; exact hs) (by rw [installed_eq]; rfl) ?_ ?_
    · rw [installed_eq]
      refine ⟨rfl, rfl, ?_, saves_append _ rfl ?_⟩
      · rw [hd]; exact Server.installLog_base cfg is x.log
      · intro e he
        split at he
        · rw [List.mem_singleton.1 he]; rfl
        · cases he
    · intro m' is' _ hm'
      obtain ⟨t, v, hev⟩ := mem_sent.1 hm'
      rw [installed_eq] at hev
      rcases List.mem_append.1 hev with hev | hev
      · split at hev
        · cases List.mem_singleton.1 hev
        · cases hev
      · exact mem_sent.2 ⟨t, v, hev⟩
    · intro i bytes hev
      rw [installed_eq] at hev
      rcases List.mem_append.1 hev with hev | hev
      · split at hev
        · injection List.mem_singleton.1 hev with h1 h2
          exact .inr ⟨hd, h1, h2⟩
        · cases hev
      · exact .inl hev
  | learn sender l hs hr => exact .aside [] rfl hnil rfl rfl rfl (Nat.le_refl _) (.inr (.inl ⟨rfl, rfl⟩))
  | advance next hs hn => exact .aside [] rfl hnil rfl rfl rfl (Nat.le_refl _) (.inr (.inl ⟨rfl, rfl⟩))
  | apply hlt =>
    rw [applyNext_eq]
    refine .aside _ rfl ?_ rfl rfl rfl (Nat.le_refl _) (.inr (.inl ⟨rfl, rfl⟩))
    intro e he
    rw [Option.mem_toList, Option.map_eq_some_iff] at he
    obtain ⟨entry, -, rfl⟩ := he
    rfl
  | compact bytes t hio hb ht =>
    refine .save bytes hio hb (List.mem_cons_of_mem _ List.mem_cons_self) ⟨?_, ?_⟩ (bytesAt_save _ _) (saves_lt [_] rfl)
      rfl rfl
    · intro m is _ hm
      obtain ⟨t, v, hev⟩ := mem_sent.1 hm
      have hev : Event.send t v m ∈ x.calls := by simpa using hev
      exact mem_sent.2 ⟨t, v, hev⟩
    · intro i b hev
      simpa using hev

end

/-! ## One node -/

/-- What `m_snapshot_save` promises: an `int`, at most the capacity it was given. -/
def Io.Fits (cfg : Config) (io : Io) : Prop :=
  ∀ save k bytes, io.snapshotSave = some save → save k = some bytes →
    bytes.length ≤ cfg.snapshotMax ∧ bytes.length < 2 ^ 31

section
variable (cfg : Config) (K : Nat → List Byte → Prop)

/-- The buffer is empty or a snapshot that was saved for the edge of the log.  `K i bytes` are the snapshots saved. -/
def Whole (s : Server) : Prop :=
  s.snapLen = 0 ∨ (K s.log.base (bytesAt s.snapBuf 0 s.snapLen) ∧ s.snapLen ≤ cfg.snapshotMax ∧ s.snapLen < 2 ^ 32)

/-- **What is true of a chunk the node `a` has sent**, when `img t i` is its image of the term `t` at the edge `i`. -/
structure ChunkOk (img : Nat → Nat → List Byte) (a : Nat) (s : Server) (dst : Nat) (is : InstallSnapshot) : Prop where
  leader : is.leaderId = a
  other : dst ≠ a
  term : is.term ≤ s.currentTerm
  before : s.state = .candidate → is.term < s.currentTerm
  edge : s.state = .leader → is.term = s.currentTerm → is.lastIncludedIndex ≤ s.log.base
  slice : Slice cfg (img is.term is.lastIncludedIndex) is
  saved : K is.lastIncludedIndex (img is.term is.lastIncludedIndex)

/-- **A node's part in handing out snapshots**: its chunks are slices of its images, a leader's buffer is the current
one, and what it loaded was saved. -/
structure Hands (img : Nat → Nat → List Byte) (a : Nat) (s : Server) : Prop where
  sent : ∀ m ∈ s.sent, ∀ is, m.payload = .installSnapshot is → ChunkOk cfg K img a s m.recipient is
  leads : s.state = .leader → Whole cfg K s ∧
    (s.snapLen ≠ 0 → img s.currentTerm s.log.base = bytesAt s.snapBuf 0 s.snapLen)
  loads : ∀ i bytes, .snapshotLoad i bytes ∈ s.calls → K i bytes

/-- **A node's buffer**, when `last` is the chunk stored last: the node's own snapshot if there is none, else the
beginning of the image the chunk is cut from.  `F` are the chunks on their way to the node. -/
structure Buffer (img : Nat → Nat → Nat → List Byte) (F : InstallSnapshot → Prop) (last : Option InstallSnapshot)
    (s : Server) : Prop where
  own : last = none → Whole cfg K s
  part : ∀ is, last = some is → F is ∧ Begins s.snapBuf s.snapLen (img is.leaderId is.term is.lastIncludedIndex) ∧
    (s.snapLen = is.totalLen → s.log.base = is.lastIncludedIndex)

/-- Where the buffer stands inside a call: as at the start, with the chunk being handled stored, or newly saved. -/
inductive Phase (heard : Option Message) (start x : Server) : Prop where
  | kept (h : Kept start x)
  | stored (m : Message) (is : InstallSnapshot) (hm : heard = some m) (his : m.payload = .installSnapshot is)
      (ht : start.currentTerm ≤ is.term) (h : Stored cfg is start x) (hs : x.state ≠ .leader)
  | saved (h : start.saves < x.saves) (hw : Whole cfg K x)

end

/-- One image changed. -/
def setImage (img : Nat → Nat → List Byte) (t i : Nat) (bytes : List Byte) : Nat → Nat → List Byte :=
  fun t' i' => if t' = t ∧ i' = i then bytes else img t' i'

section
variable {cfg : Config} {K K' : Nat → List Byte → Prop} {img : Nat → Nat → List Byte} {n : Nat} {io : Io}
  {heard : Option Message} {start x y : Server}

theorem Whole.mono (hK : ∀ i b, K i b → K' i b) (h : Whole cfg K x) : Whole cfg K' x :=
  h.imp id (fun h => ⟨hK _ _ h.1, h.2⟩)

theorem Kept.whole (hk : Kept x y) (h : Whole cfg K x) : Whole cfg K y := by
  unfold Whole at h ⊢
  rw [hk.buf, hk.len, hk.base]
  exact h

/-- A snapshot just taken. -/
theorem whole_of_save {bytes : List Byte} (hio : ∃ save k, io.snapshotSave = some save ∧ save k = some bytes)
    (hfit : io.Fits cfg) (hbuf : bytesAt y.snapBuf 0 y.snapLen = bytes) (hK : K y.log.base bytes) : Whole cfg K y := by
  obtain ⟨save, k, h1, h2⟩ := hio
  obtain ⟨hmax, hlt⟩ := hfit save k bytes h1 h2
  have hlen : y.snapLen = bytes.length := by rw [← hbuf, length_bytesAt]
  refine .inr ⟨by rw [hbuf]; exact hK, ?_, ?_⟩ <;> omega

theorem ChunkOk.image {img' : Nat → Nat → List Byte} {dst : Nat} {is : InstallSnapshot} (h : ChunkOk cfg K img n x dst is)
    (he : img' is.term is.lastIncludedIndex = img is.term is.lastIncludedIndex) : ChunkOk cfg K img' n x dst is :=
  { h with slice := he ▸ h.slice, saved := he ▸ h.saved }

theorem ChunkOk.congr {dst : Nat} {is : InstallSnapshot} (h : ChunkOk cfg K img n x dst is)
    (ht : y.currentTerm = x.currentTerm) (hs : y.state = x.state) (hb : y.log.base = x.log.base) :
    ChunkOk cfg K img n y dst is :=
  { h with
    term := by rw [ht]; exact h.term
    before := by rw [hs, ht]; exact h.before
    edge := by rw [hs, ht, hb]; exact h.edge }

theorem Hands.mono (hK : ∀ i b, K i b → K' i b) (h : Hands cfg K img n x) : Hands cfg K' img n x :=
  ⟨fun m hm is his => { h.sent m hm is his with saved := hK _ _ (h.sent m hm is his).saved }, fun hs => ⟨(h.leads hs).1.mono hK, (h.leads hs).2⟩,
    fun i b hl => hK _ _ (h.loads i b hl)⟩

/-- Nothing about snapshots happens; the server may step down or start a campaign. -/
theorem Hands.idle (h : Hands cfg K img n x) (hk : Kept x y) (hn : NoSnap x y) (ht : x.currentTerm ≤ y.currentTerm)
    (hs : y.state = .follower ∨ (y.state = x.state ∧ y.currentTerm = x.currentTerm) ∨
      (y.state = .candidate ∧ x.currentTerm < y.currentTerm)) : Hands cfg K img n y := by
  refine ⟨?_, ?_, fun i b hl => h.loads i b (hn.loads i b hl)⟩
  · intro m hm is his
    have hc := h.sent m (hn.sent m is his hm) is his
    refine { hc with term := Nat.le_trans hc.term ht, before := ?_, edge := ?_ }
    · intro hy
      rcases hs with hs | ⟨hs, ht'⟩ | ⟨-, hlt⟩
      · rw [hy] at hs; cases hs
      · rw [ht']; exact hc.before (hs ▸ hy)
      · exact Nat.lt_of_le_of_lt hc.term hlt
    · intro hy heq
      rcases hs with hs | ⟨hs, ht'⟩ | ⟨hs, -⟩
      · rw [hy] at hs; cases hs
      · rw [hk.base]; exact hc.edge (hs ▸ hy) (heq.trans ht')
      · rw [hy] at hs; cases hs
  · intro hy
    rcases hs with hs | ⟨hs, ht'⟩ | ⟨hs, -⟩
    · rw [hy] at hs; cases hs
    · obtain ⟨hw, himg⟩ := h.leads (hs ▸ hy)
      refine ⟨hk.whole hw, ?_⟩
      rw [hk.buf, hk.len, hk.base, ht']
      exact himg
    · rw [hy] at hs; cases hs

/-- A candidate that wins has sent nothing in its term: the image of the term is free. -/
theorem Hands.win (h : Hands cfg K img n x) (hk : Kept x y) (hn : NoSnap x y) (ht : y.currentTerm = x.currentTerm)
    (hs : x.state = .candidate) (hw : Whole cfg K x) :
    ∃ img', Hands cfg K img' n y ∧ ∀ m ∈ x.sent, ∀ is, m.payload = .installSnapshot is →
      img' is.term is.lastIncludedIndex = img is.term is.lastIncludedIndex := by
  have hnew : ∀ m ∈ x.sent, ∀ is, m.payload = .installSnapshot is →
      setImage img x.currentTerm x.log.base (bytesAt x.snapBuf 0 x.snapLen) is.term is.lastIncludedIndex =
        img is.term is.lastIncludedIndex := by
    intro m hm is his
    have hlt := (h.sent m hm is his).before hs
    exact if_neg (fun hc => Nat.lt_irrefl _ (hc.1 ▸ hlt))
  refine ⟨setImage img x.currentTerm x.log.base (bytesAt x.snapBuf 0 x.snapLen), ⟨?_, ?_, ?_⟩, hnew⟩
  · intro m hm is his
    have hm := hn.sent m is his hm
    have hc := (h.sent m hm is his).image (hnew m hm is his)
    have hlt := hc.before hs
    refine { hc with term := by rw [ht]; exact hc.term, before := fun _ => by rw [ht]; exact hlt, edge := ?_ }
    intro _ heq
    rw [ht] at heq
    exact absurd heq (Nat.ne_of_lt hlt)
  · intro _
    refine ⟨hk.whole hw, fun _ => ?_⟩
    rw [hk.buf, hk.len, hk.base, ht]
    exact if_pos ⟨rfl, rfl⟩
  · exact fun i b hl => h.loads i b (hn.loads i b hl)

/-- A chunk is cut from the leader's current image. -/
theorem Hands.emit (h : Hands cfg K img n x) {m : Message} {is : InstallSnapshot} (hm : m.payload = .installSnapshot is)
    (hc : Server.CanSend cfg x m) (hself : x.selfId = n) (hpeer : ∀ dst, x.HasPeer dst → dst ≠ n) :
    Hands cfg K img n (x.emit m) := by
  obtain ⟨-, hcan⟩ := hc
  rw [hm] at hcan
  obtain ⟨hs, hp, ho, his⟩ := hcan
  obtain ⟨hw, himg⟩ := h.leads hs
  obtain ⟨hsaved, hmax, hlt⟩ := hw.resolve_left (by omega)
  have himg := himg (by omega)
  have hterm : is.term = x.currentTerm := by rw [his]
  have hedge : is.lastIncludedIndex = x.log.base := by rw [his]
  refine ⟨?_, h.leads, ?_⟩
  · intro m' hm' is' his'
    obtain ⟨t, v, hev⟩ := mem_sent.1 hm'
    rcases send_of_send [] rfl (by simp) hev with ⟨-, -, rfl⟩ | hev
    · rw [hm] at his'
      injection his' with his'
      subst his'
      refine ⟨by rw [his]; exact hself, hpeer _ hp, Nat.le_of_eq hterm, fun hc => ?_, fun _ _ => Nat.le_of_eq hedge,
        ?_, ?_⟩
      · have hs' : x.state = .candidate := hc
        rw [hs] at hs'; cases hs'
      · rw [hterm, hedge, himg]
        exact slice_of_send (begins_bytesAt _ _) (by simp) (by simpa using hmax) (by simpa using hlt) ho his
      · rw [hterm, hedge, himg]
        exact hsaved
    · exact (h.sent m' (mem_sent.2 ⟨t, v, hev⟩) is' his').congr rfl rfl rfl
  · intro i b hl
    rcases List.mem_cons.1 hl with hl | hl
    · cases hl
    · exact h.loads i b hl

/-- A follower stores a chunk, and loads what was put together. -/
theorem Hands.store (h : Hands cfg K img n x) (hs : y.state = .follower) (hy : y.currentTerm = x.currentTerm)
    (hsent : ∀ m is, m.payload = .installSnapshot is → m ∈ y.sent → m ∈ x.sent)
    (hload : ∀ i bytes, .snapshotLoad i bytes ∈ y.calls → .snapshotLoad i bytes ∈ x.calls ∨ K i bytes) :
    Hands cfg K img n y := by
  refine ⟨?_, fun hl => ?_, fun i b hl => (hload i b hl).elim (h.loads i b) id⟩
  · intro m hm is his
    have hc := h.sent m (hsent m is his hm) is his
    refine { hc with term := by rw [hy]; exact hc.term, before := fun hc => ?_, edge := fun hc => ?_ }
    · rw [hs] at hc; cases hc
    · rw [hs] at hc; cases hc
  · rw [hs] at hl; cases hl

/-- A snapshot is taken; a leader's edge moves up, so the image there is free. -/
theorem Hands.save (h : Hands cfg K img n x) (hb : x.log.base < y.log.base) (hn : NoSnap x y) (hw : Whole cfg K y)
    (hs : y.state = x.state) (ht : y.currentTerm = x.currentTerm) :
    ∃ img', Hands cfg K img' n y ∧ ∀ m ∈ x.sent, ∀ is, m.payload = .installSnapshot is →
      img' is.term is.lastIncludedIndex = img is.term is.lastIncludedIndex := by
  have hloads : ∀ i b, .snapshotLoad i b ∈ y.calls → K i b := fun i b hl => h.loads i b (hn.loads i b hl)
  by_cases hl : x.state = .leader
  · have hnew : ∀ m ∈ x.sent, ∀ is, m.payload = .installSnapshot is →
        setImage img x.currentTerm y.log.base (bytesAt y.snapBuf 0 y.snapLen) is.term is.lastIncludedIndex =
          img is.term is.lastIncludedIndex := by
      intro m hm is his
      refine if_neg (fun hc => ?_)
      have hle := (h.sent m hm is his).edge hl hc.1
      omega
    refine ⟨setImage img x.currentTerm y.log.base (bytesAt y.snapBuf 0 y.snapLen), ⟨?_, ?_, hloads⟩, hnew⟩
    · intro m hm is his
      have hm := hn.sent m is his hm
      have hc := (h.sent m hm is his).image (hnew m hm is his)
      refine { hc with term := by rw [ht]; exact hc.term, before := fun hy => ?_, edge := fun _ heq => ?_ }
      · rw [ht]; exact hc.before (hs ▸ hy)
      · have hle := hc.edge hl (heq.trans ht)
        omega
    · intro _
      refine ⟨hw, fun _ => ?_⟩
      rw [ht]
      exact if_pos ⟨rfl, rfl⟩
  · refine ⟨img, ⟨?_, fun hy => absurd (hs ▸ hy) hl, hloads⟩, fun _ _ _ _ => rfl⟩
    intro m hm is his
    have hc := h.sent m (hn.sent m is his hm) is his
    refine { hc with term := by rw [ht]; exact hc.term, before := fun hy => ?_, edge := fun hy => ?_ }
    · rw [ht]; exact hc.before (hs ▸ hy)
    · exact absurd (hs ▸ hy) hl

/-- **Every move keeps a node's part sound**, with a new image when it becomes leader or compacts as one; the images of
chunks already sent do not change. -/
theorem Hands.step (h : Hands cfg K img n x) (hmv : SnapMove cfg io heard start x y) (hself : x.selfId = n)
    (hK : ∀ i b, K i b → K' i b) (hsave : ∀ i b, .snapshotSave i b ∈ y.calls → K' i b) (hfit : io.Fits cfg)
    (hpeer : ∀ dst, x.HasPeer dst → dst ≠ n)
    (hwin : Server.Wins heard start x → Whole cfg K x)
    (hload : ∀ m is, heard = some m → m.payload = .installSnapshot is → is.term = x.currentTerm →
      Server.Untouched start x → is.done = true →
      K' is.lastIncludedIndex (bytesAt (x.storeChunk cfg is).snapBuf 0 (x.storeChunk cfg is).snapLen)) :
    ∃ img', Hands cfg K' img' n y ∧ ∀ m ∈ x.sent, ∀ is, m.payload = .installSnapshot is →
      img' is.term is.lastIncludedIndex = img is.term is.lastIncludedIndex := by
  have h := h.mono hK
  cases hmv with
  | idle hk hn ht hs => exact ⟨img, h.idle hk hn ht hs, fun _ _ _ _ => rfl⟩
  | win hk hn ht hs hw => exact h.win hk hn ht hs ((hwin hw).mono hK)
  | send m is hm hc hy =>
    subst hy
    exact ⟨img, h.emit hm hc hself hpeer, fun _ _ _ _ => rfl⟩
  | store m is hm his ht h0 hst hs hy hsent hloads =>
    refine ⟨img, h.store hs hy hsent (fun i b hl => ?_), fun _ _ _ _ => rfl⟩
    rcases hloads i b hl with hl | ⟨hd, rfl, rfl⟩
    · exact .inl hl
    · exact .inr (hload m is hm his ht h0 hd)
  | save bytes hio hb hev hn hbuf hsaves hs ht =>
    exact h.save hb hn (whole_of_save hio hfit hbuf (hsave _ _ hev)) hs ht

/-- **Every move keeps track of the buffer.** -/
theorem Phase.step (h : Phase cfg K heard start x) (hmv : SnapMove cfg io heard start x y)
    (hK : ∀ i b, K i b → K' i b) (hsave : ∀ i b, .snapshotSave i b ∈ y.calls → K' i b) (hfit : io.Fits cfg)
    (hwin : ∀ m is, heard = some m → m.payload = .installSnapshot is → ¬ Server.Wins heard start x) :
    Phase cfg K' heard start y := by
  -- A step that leaves the buffer alone, and does not promote a server that has stored a chunk.
  have hkept : Kept x y → (y.state = .leader → x.state = .leader ∨ Server.Wins heard start x) →
      Phase cfg K' heard start y := by
    intro hk hl
    cases h with
    | kept h => exact .kept (h.trans hk)
    | stored m is hm his ht h hs =>
      refine .stored m is hm his ht (h.trans hk) (fun hy => ?_)
      rcases hl hy with hx | hx
      · exact hs hx
      · exact hwin m is hm his hx
    | saved h hw => exact .saved (by rw [hk.saves]; exact h) (hk.whole (hw.mono hK))
  cases hmv with
  | idle hk hn ht hs =>
    refine hkept hk (fun hy => ?_)
    rcases hs with hs | ⟨hs, -⟩ | ⟨hs, -⟩
    · rw [hy] at hs; cases hs
    · exact .inl (hs ▸ hy)
    · rw [hy] at hs; cases hs
  | win hk hn ht hs hw => exact hkept hk (fun _ => .inr hw)
  | send m is hm hc hy =>
    subst hy
    exact hkept ⟨rfl, rfl, rfl, saves_append [_] rfl (by simp [Event.isSave])⟩ .inl
  | store m is hm his ht h0 hst hs hy hsent hloads =>
    obtain ⟨hbuf, hlen⟩ := storeChunk_congr cfg is h0.buf h0.len
    refine .stored m is hm his (by rw [ht]; exact h0.term) ?_ (by rw [hs]; exact Role.noConfusion)
    exact ⟨hst.buf.trans hbuf, hst.len.trans hlen, by rw [hst.base, h0.log], hst.saves.trans h0.saves⟩
  | save bytes hio hb hev hn hbuf hsaves hs ht =>
    have hle : start.saves ≤ x.saves := by
      cases h with
      | kept h => exact Nat.le_of_eq h.saves.symm
      | stored m is hm his ht h hs => exact Nat.le_of_eq h.saves.symm
      | saved h hw => exact Nat.le_of_lt h
    exact .saved (Nat.lt_of_le_of_lt hle hsaves) (whole_of_save hio hfit hbuf (hsave _ _ hev))

theorem Hands.core_iff : Hands cfg K img n x.core ↔ Hands cfg K img n x := by
  constructor
  · intro h
    exact ⟨fun m hm is his => (h.sent m hm is his).congr rfl rfl rfl, h.leads, h.loads⟩
  · intro h
    exact ⟨fun m hm is his => (h.sent m hm is his).congr rfl rfl rfl, h.leads, h.loads⟩

theorem Phase.core_iff : Phase cfg K heard start x.core ↔ Phase cfg K heard start x := by
  constructor
  · intro h
    cases h with
    | kept h => exact .kept ⟨h.buf, h.len, h.base, h.saves⟩
    | stored m is hm his ht h hs => exact .stored m is hm his ht ⟨h.buf, h.len, h.base, h.saves⟩ hs
    | saved h hw => exact .saved h hw
  · intro h
    cases h with
    | kept h => exact .kept ⟨h.buf, h.len, h.base, h.saves⟩
    | stored m is hm his ht h hs => exact .stored m is hm his ht ⟨h.buf, h.len, h.base, h.saves⟩ hs
    | saved h hw => exact .saved h hw

end

/-! ### The buffer and the chunk stored last -/

/-- The chunk may be stored: at the start of the buffer, or after the chunks of the same snapshot, without a gap. -/
def Continues (is : InstallSnapshot) (last : Option InstallSnapshot) (s : Server) : Prop :=
  is.offset = 0 ∨ ∃ prev, last = some prev ∧ prev.leaderId = is.leaderId ∧ prev.term = is.term ∧
    prev.lastIncludedIndex = is.lastIncludedIndex ∧ is.offset ≤ s.snapLen

/-- A snapshot is being put together and not all of it is there. -/
def Halfway (last : Option InstallSnapshot) (s : Server) : Prop := ∃ is, last = some is ∧ s.snapLen < is.totalLen

namespace Buffer

variable {cfg : Config} {K K' : Nat → List Byte → Prop} {img img' : Nat → Nat → Nat → List Byte}
  {F F' : InstallSnapshot → Prop} {last : Option InstallSnapshot} {s s' : Server}

theorem mono (h : Buffer cfg K img F last s) (hK : ∀ i b, K i b → K' i b) (hF : ∀ is, F is → F' is)
    (himg : ∀ is, F is → img' is.leaderId is.term is.lastIncludedIndex = img is.leaderId is.term is.lastIncludedIndex) :
    Buffer cfg K' img' F' last s := by
  refine ⟨fun hl => (h.own hl).mono hK, fun is hl => ?_⟩
  obtain ⟨h1, h2, h3⟩ := h.part is hl
  exact ⟨hF is h1, by rw [himg is h1]; exact h2, h3⟩

theorem kept (h : Buffer cfg K img F last s) (hk : Kept s s') : Buffer cfg K img F last s' := by
  refine ⟨fun hl => hk.whole (h.own hl), fun is hl => ?_⟩
  rw [hk.buf, hk.len, hk.base]
  exact h.part is hl

/-- What is known of the chunks on their way. -/
def Cut (cfg : Config) (K : Nat → List Byte → Prop) (img : Nat → Nat → Nat → List Byte) (is : InstallSnapshot) : Prop :=
  Slice cfg (img is.leaderId is.term is.lastIncludedIndex) is ∧
    K is.lastIncludedIndex (img is.leaderId is.term is.lastIncludedIndex)

/-- **A buffer that is not halfway is whole.** -/
theorem whole (h : Buffer cfg K img F last s) (hF : ∀ is, F is → Cut cfg K img is) (hh : ¬ Halfway last s) :
    Whole cfg K s := by
  cases hl : last with
  | none => exact h.own hl
  | some is =>
    obtain ⟨h1, h2, h3⟩ := h.part is hl
    obtain ⟨hslice, hsaved⟩ := hF is h1
    have hle : ¬ s.snapLen < is.totalLen := fun hlt => hh ⟨is, hl, hlt⟩
    have htotal := hslice.total
    have hfits := hslice.fits
    have hlt := hslice.lt
    have hbound := h2.le
    have hall : s.snapLen = (img is.leaderId is.term is.lastIncludedIndex).length := by omega
    refine .inr ⟨?_, by omega, by omega⟩
    rw [h2.whole hall, h3 (by omega)]
    exact hsaved

/-- **The bytes after a chunk that continues what is there.** -/
theorem begins {is : InstallSnapshot} (h : Buffer cfg K img F last s)
    (hs : Slice cfg (img is.leaderId is.term is.lastIncludedIndex) is) (hc : Continues is last s) :
    Begins (s.storeChunk cfg is).snapBuf (s.storeChunk cfg is).snapLen
      (img is.leaderId is.term is.lastIncludedIndex) := by
  refine Begins.store hs ?_
  rcases hc with h0 | ⟨prev, hl, h1, h2, h3, ho⟩
  · exact .inl h0
  · have hb := (h.part prev hl).2.1
    rw [h1, h2, h3] at hb
    exact .inr ⟨hb, ho⟩

/-- The last chunk completes the snapshot. -/
theorem complete {is : InstallSnapshot} (h : Buffer cfg K img F last s)
    (hs : Slice cfg (img is.leaderId is.term is.lastIncludedIndex) is) (hc : Continues is last s) (hd : is.done = true) :
    bytesAt (s.storeChunk cfg is).snapBuf 0 (s.storeChunk cfg is).snapLen =
      img is.leaderId is.term is.lastIncludedIndex := by
  have hb := h.begins hs hc
  have hle := hb.le
  have hlen := (hs.storeChunk s).2
  have hdone := hs.done.1 hd
  exact hb.whole (by omega)

/-- **The buffer after a chunk was stored.** -/
theorem stored {is : InstallSnapshot} (h : Buffer cfg K img F last s) (hF : ∀ is, F is → Cut cfg K img is) (hi : F is)
    (hc : Continues is last s) (hst : Stored cfg is s s') : Buffer cfg K img F (some is) s' := by
  obtain ⟨hs, -⟩ := hF is hi
  refine ⟨fun hn => (by cases hn), ?_⟩
  rintro is' ⟨⟩
  refine ⟨hi, by rw [hst.buf, hst.len]; exact h.begins hs hc, fun hall => ?_⟩
  rw [hst.base]
  split
  · rfl
  rename_i hd
  -- All is there but this was not the last chunk: all was there before it.
  have hlen := (hs.storeChunk s).2
  have htotal := hs.total
  have hw := hs.within
  have hdone : is.offset + is.dataLen ≠ (img is.leaderId is.term is.lastIncludedIndex).length :=
    fun he => hd (hs.done.2 he)
  rw [hst.len, hlen] at hall
  rcases hc with h0 | ⟨prev, hl, h1, h2, h3, ho⟩
  · rw [if_pos h0] at hall
    omega
  · obtain ⟨hp, hb, hedge⟩ := h.part prev hl
    have hprev := (hF prev hp).1.total
    rw [h1, h2, h3] at hprev
    rw [← h3]
    refine hedge ?_
    split at hall <;> omega

end Buffer

end Raft
end FloodEws
