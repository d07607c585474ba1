import FloodEws.Chains
/-!
# Chunks — a snapshot cut into chunks, and the buffer it is put together in

A leader sends its snapshot in slices of `SNAPSHOT_CHUNK` bytes, and the follower copies each to its offset in
`m_snap_buf`, the buffer that also holds its own snapshot.  Two relations say all that later proofs need of the bytes:
`Begins`, the buffer starts as the snapshot does, and `Slice`, a message is a slice of it.  Slices stored without a gap
keep the first (`Begins.store`), and the slice marked `done` completes it.

The last section says what one call does to the buffer: an accepted chunk is stored and nothing else happens to it,
unless the same call takes a snapshot.
-/
namespace FloodEws
namespace Raft

variable {cfg : Config} {io : Io} {buf : Nat → Byte} {len : Nat} {bytes : List Byte} {is : InstallSnapshot}

/-- The first `len` bytes of the buffer are the first `len` of `bytes`. -/
structure Begins (buf : Nat → Byte) (len : Nat) (bytes : List Byte) : Prop where
  le : len ≤ bytes.length
  eq : ∀ k, k < len → bytes[k]? = some (buf k)

theorem getElem?_bytesAt (buf : Nat → Byte) (offset len k : Nat) :
    (bytesAt buf offset len)[k]? = if k < len then some (buf (offset + k)) else none := by
  unfold bytesAt
  rw [List.getElem?_map]
  split
  · rename_i h
    rw [List.getElem?_range h]; rfl
  · rename_i h
    rw [List.getElem?_eq_none (by simpa using h)]; rfl

@[simp] theorem length_bytesAt (buf : Nat → Byte) (offset len : Nat) : (bytesAt buf offset len).length = len := by
  simp [bytesAt]

theorem begins_bytesAt (buf : Nat → Byte) (len : Nat) : Begins buf len (bytesAt buf 0 len) where
  le := by simp
  eq := fun k hk => by rw [getElem?_bytesAt, if_pos hk, Nat.zero_add]

/-- **A buffer that has all of it is the snapshot.** -/
theorem Begins.whole (h : Begins buf len bytes) (hl : len = bytes.length) : bytesAt buf 0 len = bytes := by
  apply List.ext_getElem?
  intro k
  rw [getElem?_bytesAt]
  split
  · rename_i hk
    rw [h.eq k hk, Nat.zero_add]
  · rename_i hk
    rw [List.getElem?_eq_none (by omega)]

/-- What `m_snapshot_save` wrote is what the buffer begins with. -/
theorem bytesAt_save (buf : Nat → Byte) (bytes : List Byte) :
    bytesAt (splice buf 0 bytes.length bytes) 0 bytes.length = bytes := by
  refine Begins.whole ⟨Nat.le_refl _, fun k hk => ?_⟩ rfl
  unfold splice
  rw [if_pos ⟨Nat.zero_le k, by omega⟩, Nat.sub_zero, List.getD_eq_getElem?_getD, List.getElem?_eq_getElem hk]
  rfl

/-- **The chunk is a slice of the snapshot**, which fits the buffer and whose length fits 32 bits. -/
structure Slice (cfg : Config) (bytes : List Byte) (is : InstallSnapshot) : Prop where
  total : is.totalLen = bytes.length
  fits : bytes.length ≤ cfg.snapshotMax
  lt : bytes.length < 2 ^ 32
  within : is.offset + is.dataLen ≤ bytes.length
  data : ∀ k, k < is.dataLen → is.data[k]? = bytes[is.offset + k]?
  done : is.done = true ↔ is.offset + is.dataLen = bytes.length

/-- The chunk `send_install_snapshot` cuts at an offset into its buffer. -/
theorem slice_of_send {s : Server} (hb : Begins s.snapBuf s.snapLen bytes) (hl : s.snapLen = bytes.length)
    (hfit : bytes.length ≤ cfg.snapshotMax) (hlt : bytes.length < 2 ^ 32) (ho : is.offset < s.snapLen)
    (h : is =
      { term := s.currentTerm, leaderId := s.selfId, lastIncludedIndex := s.log.base,
        lastIncludedTerm := s.log.baseTerm, offset := is.offset, totalLen := s.snapLen,
        dataLen := min (s.snapLen - is.offset) cfg.snapshotChunk % 2 ^ 16,
        done := decide (s.snapLen ≤ add32 is.offset (min (s.snapLen - is.offset) cfg.snapshotChunk % 2 ^ 16)),
        data := bytesAt s.snapBuf is.offset (min (s.snapLen - is.offset) cfg.snapshotChunk % 2 ^ 16) }) :
    Slice cfg bytes is := by
  have hle : min (s.snapLen - is.offset) cfg.snapshotChunk % 2 ^ 16 ≤ s.snapLen - is.offset :=
    Nat.le_trans (Nat.mod_le _ _) (Nat.min_le_left _ _)
  generalize min (s.snapLen - is.offset) cfg.snapshotChunk % 2 ^ 16 = chunk at h hle
  have hadd : add32 is.offset chunk = is.offset + chunk := Nat.mod_eq_of_lt (by omega)
  have hlen : is.dataLen = chunk := by rw [h]
  have hdata : is.data = bytesAt s.snapBuf is.offset chunk := by rw [h]
  have hdone : is.done = decide (s.snapLen ≤ add32 is.offset chunk) := by rw [h]
  have htotal : is.totalLen = s.snapLen := by rw [h]
  refine ⟨htotal.trans hl, hfit, hlt, by omega, ?_, ?_⟩
  · intro k hk
    rw [hlen] at hk
    rw [hdata, getElem?_bytesAt, if_pos hk, hb.eq _ (by omega)]
  · rw [hdone, hadd, hlen, decide_eq_true_iff]
    omega

/-- What storing a slice leaves in the buffer. -/
theorem Slice.storeChunk (h : Slice cfg bytes is) (s : Server) :
    (s.storeChunk cfg is).snapBuf = splice s.snapBuf is.offset is.dataLen is.data ∧
      (s.storeChunk cfg is).snapLen = max (if is.offset = 0 then 0 else s.snapLen) (is.offset + is.dataLen) := by
  have hw := h.within
  have hfit := h.fits
  have hlt := h.lt
  have hadd : add32 is.offset is.dataLen = is.offset + is.dataLen := Nat.mod_eq_of_lt (by omega)
  have hmax : ∀ l x : Nat, (if l < x then x else l) = max l x := by
    intro l x
    split <;> omega
  unfold Server.storeChunk
  dsimp only
  rw [hadd, if_pos (by omega)]
  split
  · exact ⟨rfl, hmax _ _⟩
  · exact ⟨rfl, hmax _ _⟩

/-- **A slice stored at the start, or where the buffer already has everything before it.** -/
theorem Begins.store {s : Server} (h : Slice cfg bytes is)
    (hgap : is.offset = 0 ∨ Begins s.snapBuf s.snapLen bytes ∧ is.offset ≤ s.snapLen) :
    Begins (s.storeChunk cfg is).snapBuf (s.storeChunk cfg is).snapLen bytes := by
  obtain ⟨hbuf, hlen⟩ := h.storeChunk s
  have hw := h.within
  have hnew : ∀ k, is.offset ≤ k → k < is.offset + is.dataLen →
      bytes[k]? = some (splice s.snapBuf is.offset is.dataLen is.data k) := by
    intro k h1 h2
    have hk := h.data (k - is.offset) (by omega)
    rw [Nat.add_sub_cancel' h1] at hk
    unfold splice
    rw [if_pos ⟨h1, h2⟩, List.getD_eq_getElem?_getD, hk, List.getElem?_eq_getElem (by omega)]
    rfl
  rw [hbuf, hlen]
  rcases hgap with h0 | ⟨hb, ho⟩
  · rw [if_pos h0, Nat.zero_max]
    exact ⟨hw, fun k hk => hnew k (by omega) hk⟩
  · have hle := hb.le
    have hcap : (if is.offset = 0 then 0 else s.snapLen) ≤ s.snapLen := by
      split <;> omega
    refine ⟨by omega, fun k hk => ?_⟩
    by_cases hin : is.offset ≤ k ∧ k < is.offset + is.dataLen
    · exact hnew k hin.1 hin.2
    · rw [hb.eq k (by omega)]
      unfold splice
      rw [if_neg hin]

/-! ## The buffer during a call -/

/-- The buffer and the edge it belongs to are as they were at `start`, and no snapshot was taken since. -/
structure Kept (start s : Server) : Prop where
  buf : s.snapBuf = start.snapBuf
  len : s.snapLen = start.snapLen
  base : s.log.base = start.log.base
  saves : s.saves = start.saves

/-- The same, except that the chunk `is` was stored, and installed if it was the last one. -/
structure Stored (cfg : Config) (is : InstallSnapshot) (start s : Server) : Prop where
  buf : s.snapBuf = (start.storeChunk cfg is).snapBuf
  len : s.snapLen = (start.storeChunk cfg is).snapLen
  base : s.log.base = if is.done then is.lastIncludedIndex else start.log.base
  saves : s.saves = start.saves

theorem Kept.refl (s : Server) : Kept s s := ⟨rfl, rfl, rfl, rfl⟩

theorem Kept.trans {s x y : Server} (h : Kept s x) (h' : Kept x y) : Kept s y :=
  ⟨h'.buf.trans h.buf, h'.len.trans h.len, h'.base.trans h.base, h'.saves.trans h.saves⟩

theorem Stored.trans {s x y : Server} (h : Stored cfg is s x) (h' : Kept x y) : Stored cfg is s y :=
  ⟨h'.buf.trans h.buf, h'.len.trans h.len, h'.base.trans h.base, h'.saves.trans h.saves⟩

/-- Storing reads nothing but the buffer and how much of it is in use. -/
theorem storeChunk_congr (cfg : Config) (is : InstallSnapshot) {s x : Server} (hb : x.snapBuf = s.snapBuf) (hl : x.snapLen = s.snapLen) :
    (x.storeChunk cfg is).snapBuf = (s.storeChunk cfg is).snapBuf ∧
      (x.storeChunk cfg is).snapLen = (s.storeChunk cfg is).snapLen := by
  unfold Server.storeChunk
  dsimp only
  by_cases h0 : is.offset = 0
  · rw [if_pos h0, if_pos h0]
    split
    · exact ⟨by rw [hb], rfl⟩
    · exact ⟨hb, rfl⟩
  · rw [if_neg h0, if_neg h0]
    split
    · exact ⟨by rw [hb], by rw [hl]⟩
    · exact ⟨hb, hl⟩

namespace Server

theorem applyLoop_kept (cfg : Config) : ∀ (k : Nat) (s : Server), Kept s (applyLoop cfg k s)
  | 0, s => .refl s
  | k + 1, s => by
    have hnext : Kept s (s.applyNext cfg) := by
      rw [applyNext_eq]
      refine ⟨rfl, rfl, rfl, saves_append _ rfl ?_⟩
      intro e he
      rw [Option.mem_toList, Option.map_eq_some_iff] at he
      obtain ⟨x, -, rfl⟩ := he
      rfl
    exact hnext.trans (applyLoop_kept cfg k _)

/-- `begin_snapshot` takes a snapshot or leaves the buffer alone. -/
theorem beginSnapshot_kept (cfg : Config) (io : Io) (s : Server) :
    Kept s (s.beginSnapshot cfg io).2 ∨ s.saves < (s.beginSnapshot cfg io).2.saves := by
  rcases beginSnapshot_cases cfg io s with ⟨-, k, he⟩ | ⟨-, t, bytes, -, -, -, he⟩
  · rw [he]
    exact .inl ⟨rfl, rfl, rfl, rfl⟩
  · rw [he]
    exact .inr (saves_lt [.persistLogCompact s.lastApplied] rfl)

theorem applyCommitted_kept (cfg : Config) (io : Io) (s : Server) :
    Kept s (s.applyCommitted cfg io) ∨ s.saves < (s.applyCommitted cfg io).saves := by
  have hloop := applyLoop_kept cfg (s.commitIndex - s.lastApplied) s
  unfold applyCommitted maybeCompact
  generalize applyLoop cfg (s.commitIndex - s.lastApplied) s = x at hloop
  split
  · exact .inl hloop
  · rcases beginSnapshot_kept cfg io x with h | h
    · exact .inl (hloop.trans h)
    · exact .inr (by rw [← hloop.saves]; exact h)

/-- **What an accepted chunk does to the buffer**, when the call takes no snapshot. -/
theorem handleInstallSnapshot_stored {s : Server} (ht : s.currentTerm ≤ is.term)
    (h : (s.handleInstallSnapshot cfg io is).saves = s.saves) :
    Stored cfg is s (s.handleInstallSnapshot cfg io is) := by
  obtain ⟨hterm, hsame⟩ := maybeStepDown_spec is.term s
  rw [Nat.max_eq_right ht] at hterm
  obtain ⟨-, -, hsame'⟩ := becomeFollower_spec cfg io is.leaderId (Nat.le_of_eq hterm.symm)
  have hx := hsame.trans hsame'
  unfold handleInstallSnapshot at h ⊢
  rw [if_neg (Nat.not_lt.2 ht)] at h ⊢
  dsimp only at h ⊢
  generalize (s.maybeStepDown is.term).becomeFollower cfg io is.term is.leaderId = x at hx h
  obtain ⟨hbuf, hlen⟩ := storeChunk_congr cfg is hx.buf hx.len
  obtain ⟨i, t, he⟩ := storeChunk_eq cfg is x
  have hlog : (x.storeChunk cfg is).log = s.log := by rw [he]; exact hx.log
  have hsaves : (x.storeChunk cfg is).saves = s.saves := by rw [he]; exact hx.saves
  generalize x.storeChunk cfg is = y at hbuf hlen hlog hsaves h
  cases hd : is.done with
  | false =>
    rw [hd] at h
    have hsend : (y.replySnapshot is).saves = y.saves := saves_append [_] rfl (by simp [Event.isSave])
    exact ⟨hbuf, hlen, by rw [hd]; exact congrArg LogRing.base hlog, hsend.trans hsaves⟩
  | true =>
    rw [hd] at h
    simp only [Bool.not_true, Bool.false_eq_true, if_false] at h ⊢
    -- The server up to its reply: installed, and loaded if the hook is bound.
    have hdone : ∀ z : Server, (∃ evs : List Event, (∀ e ∈ evs, e.isSave = false) ∧ z = { y with
        log := installLog cfg is y.log
        commitIndex := max y.commitIndex (installLog cfg is y.log).base
        lastApplied := max y.lastApplied (installLog cfg is y.log).base
        calls := evs ++ y.calls }) → (z.applyCommitted cfg io).saves = s.saves →
        Stored cfg is s (z.applyCommitted cfg io) := by
      rintro z ⟨evs, hevs, hz⟩ hs
      have hpre : Stored cfg is s z := by
        refine ⟨by rw [hz]; exact hbuf, by rw [hz]; exact hlen, ?_, ?_⟩
        · rw [hd, hz]
          exact Server.installLog_base cfg is y.log
        · exact (saves_append evs (by rw [hz]) hevs).trans hsaves
      exact hpre.trans ((applyCommitted_kept cfg io z).resolve_right (by rw [hs, hpre.saves]; exact Nat.lt_irrefl _))
    by_cases hload : io.snapshotLoad = true
    · rw [if_pos hload] at h ⊢
      exact hdone _ ⟨[_, _, _], by simp [Event.isSave], rfl⟩ h
    · rw [if_neg hload] at h ⊢
      exact hdone _ ⟨[_, _], by simp [Event.isSave], rfl⟩ h

end Server

end Raft
end FloodEws
