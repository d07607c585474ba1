import FloodEws.Mirror
import FloodEws.Wire
/-!
# Signer — who an RPC is from

The signature of an RPC covers the bytes of the struct and nothing that says which struct it is, so what is signed as one
RPC is accepted as any other of its size.  That apart, an RPC acts for the node that signed it: a response for the EUI of
its envelope, a request for the id inside, which a server always fills in with its own (`perform_names`).
-/
namespace FloodEws

/-! ## What a server puts into its requests -/

namespace Raft

/-- A request of the node `n` names it: `m_candidate_id` or `m_leader_id` is `n`. -/
def Payload.Names (n : Nat) : Payload → Prop
  | .requestVote rv => rv.candidateId = n
  | .appendEntries ae => ae.leaderId = n
  | .installSnapshot is => is.leaderId = n
  | _ => True

namespace Server

variable {cfg : Config} {io : Io}

theorem CanSend.names {s : Server} {m : Message} (h : s.CanSend cfg m) : m.payload.Names s.selfId := by
  obtain ⟨-, hfields⟩ := h
  unfold Payload.Names
  cases hp : m.payload with
  | requestVote rv =>
    rw [hp] at hfields
    rcases hfields with ⟨-, hid⟩ | ⟨-, -, rfl⟩
    · exact hid
    · rfl
  | appendEntries ae =>
    rw [hp] at hfields
    obtain ⟨-, -, -, next, -, hae⟩ := hfields
    dsimp only
    rw [hae]
  | installSnapshot is =>
    rw [hp] at hfields
    obtain ⟨-, -, -, his⟩ := hfields
    dsimp only
    rw [his]
  | _ => trivial

/-- Since `s`, every request sent names the server itself. -/
def Names (s y : Server) : Prop :=
  y.selfId = s.selfId ∧ ∃ evs, y.calls = evs ++ s.calls ∧ ∀ t v m, .send t v m ∈ evs → m.payload.Names s.selfId

theorem Names.refl (s : Server) : Names s s := ⟨rfl, [], rfl, fun _ _ _ h => by cases h⟩

theorem Names.trans {s x y : Server} (h : Names s x) (h' : Names x y) : Names s y := by
  obtain ⟨hself, evs, hevs, hnames⟩ := h
  obtain ⟨hself', evs', hevs', hnames'⟩ := h'
  refine ⟨hself'.trans hself, evs' ++ evs, by rw [hevs', hevs, List.append_assoc], fun t v m hm => ?_⟩
  rcases List.mem_append.1 hm with hm | hm
  · exact hself ▸ hnames' t v m hm
  · exact hnames t v m hm

/-- Nothing is sent. -/
theorem Names.silent {s y : Server} (evs : List Event) (hself : y.selfId = s.selfId) (hcalls : y.calls = evs ++ s.calls)
    (h : ∀ e ∈ evs, e.silent = true) : Names s y :=
  ⟨hself, evs, hcalls, fun _ _ _ hm => Bool.noConfusion (h _ hm)⟩

theorem Move.names {fit : Prop} {heard : Option Message} {start x y : Server} (h : Move cfg io fit heard start x y) :
    Names x y := by
  have hquiet : ∀ evs : List Event, (∀ e ∈ evs, e.quiet = true) → ∀ e ∈ evs, e.silent = true :=
    fun evs hq e he => Event.silent_of_plain (Event.plain_of_quiet (hq e he))
  cases h with
  | quiet evs hq => exact .silent evs rfl rfl (hquiet evs hq)
  | emit m hsend =>
    refine ⟨rfl, [_], rfl, fun t v m' hm => ?_⟩
    cases List.mem_singleton.1 hm
    exact hsend.names
  | accept m ae hm hae ht hs hp h0 =>
    -- The reply is a response.
    obtain ⟨evs, hq, he⟩ := accepted_eq cfg ae x
    rw [he]
    refine ⟨rfl, _ :: evs, rfl, fun t v m' hm => ?_⟩
    rcases List.mem_cons.1 hm with hm | hm
    · cases hm
      trivial
    · exact Bool.noConfusion (hquiet evs hq _ hm)
  | chunk m is hm his ht hs hd h0 =>
    rw [chunk_eq]
    exact .silent [] rfl rfl (by simp)
  | install m is hm his ht hs hd h0 =>
    rw [installed_eq]
    refine .silent _ rfl rfl (fun e he => ?_)
    split at he
    · rw [List.mem_singleton.1 he]
      rfl
    · cases he
  | apply hlt =>
    rw [applyNext_eq]
    refine .silent _ rfl rfl (fun e he => ?_)
    obtain ⟨d, -, rfl⟩ := Option.map_eq_some_iff.1 (Option.mem_toList.1 he)
    rfl
  | compact bytes t hio hb ht => exact .silent [_, _] rfl rfl (by simp [Event.silent])
  | adopt t ht => exact .silent [_] rfl rfl (by simp [Event.silent])
  | campaign hs hf => exact .silent [_] rfl rfl (by simp [Event.silent])
  | propose e log hs ht hi hp => exact .silent [_] rfl rfl (by simp [Event.silent])
  | vote m rv hm hrv hpre ht hv hu => exact .silent [_] rfl rfl (by simp [Event.silent])
  | aim nodes hk hn => exact .silent [] rfl rfl (by simp)
  | demote => exact .silent [] rfl rfl (by simp)
  | tally m rr p hm hrr hpre hg ht hs hp hn => exact .silent [] rfl rfl (by simp)
  | promote hs hm hw => exact .silent [] rfl rfl (by simp)
  | learn sender l hs hr => exact .silent [] rfl rfl (by simp)
  | advance next hs hn => exact .silent [] rfl rfl (by simp)

/-- **Every request that a call sends names the server itself.** -/
theorem perform_names (cfg : Config) (io : Io) (s : Server) (k : Call) : Names s (s.perform cfg io k) := by
  have hrun : ∀ y, Moves cfg io False k.heard s s.core y → Names s y := by
    intro y hy
    induction hy with
    | refl => exact .silent [] rfl rfl (by simp)
    | tail _ hmv ih => exact ih.trans (Move.names hmv)
  obtain ⟨hself, hcalls⟩ := hrun _ (perform_moves cfg io False s k (fun h => h.elim))
  exact ⟨hself, hcalls⟩

end Server

namespace Payload

open Ingress (RpcType)

/-- The second word of a struct. -/
theorem slice_second (gap : Nat → Byte) (fields : List (Nat × Nat)) (t n : Nat) (values : List (List Byte)) :
    Bytes.slice (Layout.image gap (Ingress.u64 :: Ingress.u64 :: fields) (word 8 t :: word 8 n :: values)) 8 8 =
      word 8 n := by
  have hplace : Layout.place gap 0 (Ingress.u64 :: Ingress.u64 :: fields) (word 8 t :: word 8 n :: values) =
      word 8 t ++ (word 8 n ++ Layout.place gap 16 fields values) := by
    simp [Layout.place, Layout.filler, Layout.alignUp, Ingress.u64]
  rw [Layout.image, hplace, List.append_assoc, List.append_assoc]
  show Bytes.slice _ (8 + 0) 8 = _
  rw [Bytes.slice_append_right (length_word 8 t), Bytes.slice_append_first (length_word 8 n)]

/-- **A request has its node's id in the second word.** -/
theorem slice_named (gap : Nat → Byte) {p : Payload} {n : Nat} (h : p.Names n) (hreq : p.type.isResp = false) :
    Bytes.slice (p.image gap) 8 8 = word 8 n := by
  cases p with
  | requestVote rv =>
    obtain rfl : rv.candidateId = n := h
    rw [image, type, RpcType.fields, values, slice_second]
  | appendEntries ae =>
    obtain rfl : ae.leaderId = n := h
    rw [image, type, RpcType.fields, values, slice_second]
  | installSnapshot is =>
    obtain rfl : is.leaderId = n := h
    rw [image, type, RpcType.fields, values, slice_second]
  | requestVoteResp rr => cases hreq
  | appendEntriesResp rr => cases hreq
  | installSnapshotResp rr => cases hreq

end Payload

end Raft

/-! ## Who is acted on -/

namespace Ingress

open Bytes (slice)
open Raft (Byte Payload Server)

/-- What a node signs: an RPC it puts to a peer, a reading, or an alert. -/
inductive SignedValue where
  | rpc (v : Rpc)
  | reading (bytes : List Byte)
  | alert (bytes : List Byte)

namespace SignedValue

def bytes : SignedValue → List Byte
  | rpc v => v.bytes
  | reading bytes => bytes
  | alert bytes => bytes

/-- The bytes of a value of its type. -/
def Sized : SignedValue → Prop
  | rpc v => v.bytes.length = v.type.size
  | reading bytes => bytes.length = readingSize
  | alert bytes => bytes.length = packetSize

end SignedValue

/-- The server of this node has sent it, in some call in some state, and `coap_put` was handed its struct. -/
def Rpc.PutBy (eui : Nat) (v : Rpc) : Prop :=
  ∃ cfg io s k evs t voted m gap, Server.selfId s = eui ∧ (s.perform cfg io k).calls = evs ++ s.calls ∧
    .send t voted m ∈ evs ∧ v = ⟨m.payload.type, m.payload.image gap⟩

/-- The node a request names: `m_candidate_id` and `m_leader_id` are the second field of their structs. -/
def Rpc.namedId (v : Rpc) : Nat := u64At 8 v.bytes

/-- The node the server acts on: the one named in a request, the sender of a response. -/
def Inbound.actor (item : Inbound) : Nat := if item.rpc.type.isResp then item.sender else item.rpc.namedId

/-- RPCs that one signature fits alike. -/
def RpcType.Alike (t t' : RpcType) : Prop := t.size = t'.size

theorem RpcType.alike_iff (t t' : RpcType) : t.Alike t' ↔ t = t' ∨
    (t, t') ∈ [(requestVote, appendEntriesResp), (appendEntriesResp, requestVote),
      (requestVoteResp, installSnapshotResp), (installSnapshotResp, requestVoteResp)] := by
  unfold Alike
  cases t <;> cases t' <;> decide

theorem u64At_lt (off : Nat) (bytes : List Byte) : u64At off bytes < 2 ^ 64 := by
  have hlen : (slice bytes off 8).length ≤ 8 := List.length_take_le 8 _
  exact Nat.lt_of_lt_of_le (Layout.number_lt _) (Nat.pow_le_pow_right (by decide) hlen)

/-- **A request that a node has put names that node.** -/
theorem Rpc.PutBy.namedId {eui : Nat} {v : Rpc} (h : v.PutBy eui) (heui : eui < 2 ^ 64) (hreq : v.type.isResp = false) :
    v.namedId = eui := by
  obtain ⟨cfg, io, s, k, evs, t, voted, m, gap, hself, hcalls, hmem, rfl⟩ := h
  obtain ⟨-, evs', hcalls', hnames⟩ := Server.perform_names cfg io s k
  obtain rfl : evs = evs' := List.append_cancel_right (hcalls.symm.trans hcalls')
  have hnamed := hnames t voted m hmem
  rw [hself] at hnamed
  unfold Rpc.namedId u64At
  rw [Payload.slice_named gap hnamed hreq, Raft.number_word8 heui]

/-- **An accepted RPC was signed, as an RPC, by the node its envelope claims**, and as an RPC of the type it is accepted
as, or of the one other type that is as long.  The node acted on is that signer, unless the answer to an `AppendEntries`
stands in for a `RequestVote`. -/
theorem rpc_bound_to_signer (psa : Psa) (store : TrustedDeviceStore) (Signed : Nat → SignedValue → Prop)
    (hsized : ∀ eui v, Signed eui v → v.Sized) (hput : ∀ eui v, Signed eui (.rpc v) → v.PutBy eui)
    (hunforgeable : ∀ eui bytes sig, store.verify psa eui bytes sig = psaSuccess → ∃ v, Signed eui v ∧ v.bytes = bytes)
    (t : RpcType) (msg : List Byte) (item : Inbound) (h : decodeResponse psa store t msg = some item) :
    ∃ v : Rpc, Signed (u64At 0 msg) (.rpc v) ∧ v.bytes = item.rpc.bytes ∧ item.rpc.type = t ∧ v.type.Alike t ∧
      ((t = .requestVote → v.type = .requestVote) → item.actor = u64At 0 msg) := by
  obtain ⟨hlen, hver, rfl⟩ := decodeResponse_eq_some h
  obtain ⟨v, hv, hbytes⟩ := hunforgeable _ _ _ hver
  have hsize : v.bytes.length = t.size := by
    rw [hbytes, slice, List.length_take, List.length_drop, hlen]
    omega
  -- No reading and no alert is as long as an RPC.
  cases v with
  | reading bytes =>
    have h24 : bytes.length = readingSize := hsized _ _ hv
    have hsize : bytes.length = t.size := hsize
    rw [h24] at hsize
    exact absurd hsize (by cases t <;> decide)
  | alert bytes =>
    have h4 : bytes.length = packetSize := hsized _ _ hv
    have hsize : bytes.length = t.size := hsize
    rw [h4] at hsize
    exact absurd hsize (by cases t <;> decide)
  | rpc v =>
    have hown : v.bytes.length = v.type.size := hsized _ _ hv
    have hb : v.bytes = slice msg 8 t.size := hbytes
    have halike : v.type.Alike t := hown.symm.trans hsize
    refine ⟨v, hv, hb, rfl, halike, fun hvote => ?_⟩
    cases hr : t.isResp with
    | true => simp [Inbound.actor, hr]
    | false =>
      -- The other requests are as long as nothing else.
      have htype : v.type = t := by
        rcases (RpcType.alike_iff _ _).1 halike with htype | hpair
        · exact htype
        · cases t <;> first | exact hvote rfl | exact absurd hr (by decide) | simp at hpair
      have hnamed := (hput _ _ hv).namedId (u64At_lt 0 msg) (by rw [htype]; exact hr)
      simpa [Inbound.actor, hr, Rpc.namedId, hb] using hnamed

/-- The answer of node 5 to an `AppendEntries`: term 1, success, no conflict, nothing in its log. -/
def appendAnswer : Rpc := ⟨.appendEntriesResp, [1, 0, 0, 0, 0, 0, 0, 0, 1] ++ List.replicate 31 0⟩

/-- The request of node 5 to node 6 for a vote in term 1, as it starts an election. -/
def voteRequest : Rpc := ⟨.requestVote, [1, 0, 0, 0, 0, 0, 0, 0, 5] ++ List.replicate 31 0⟩

/-- The envelope of node 5 around an RPC, with the signature `[9, 9, …]`. -/
def envelopeOf (v : Rpc) : List Byte := [5, 0, 0, 0, 0, 0, 0, 0] ++ v.bytes ++ List.replicate 64 9 ++ [0, 0, 0, 0]

/-- Under `onlySigned`, what verifies is what was signed. -/
theorem verify_onlySigned {v : Rpc} {eui : Nat} {bytes sig : List Byte}
    (h : trustsFive.verify (onlySigned 3 v.bytes (List.replicate 64 9)) eui bytes sig = psaSuccess) :
    eui = 5 ∧ bytes = v.bytes := by
  unfold TrustedDeviceStore.verify TrustedDeviceStore.findPeer trustsFive at h
  by_cases h5 : eui = 5
  · subst h5
    simp only [onlySigned, beq_self_eq_true, Bool.and_self, List.find?_cons_of_pos] at h
    split at h
    · rename_i hk
      exact ⟨rfl, hk.2.1⟩
    · cases h
  · have hne : (5 == eui) = false := by simpa using Ne.symm h5
    simp [hne, psaErrorInvalidHandle, psaSuccess] at h

/-- Node 5 of a cluster of two, one pre-vote short of an election. -/
def probing : Server := { Server.new Raft.defaultConfig 5 [5, 6] with preVoteActive := true, preVotesGranted := 1 }

/-- The pre-vote of node 6. -/
def preVote : Raft.Call := .handle ⟨6, 5, .requestVoteResp { term := 0, voteGranted := true, preVote := true }⟩

theorem voteRequest_putBy : voteRequest.PutBy 5 := by
  refine ⟨Raft.defaultConfig, .at 0, probing, preVote, (probing.perform Raft.defaultConfig (.at 0) preVote).calls, 1, 5,
    ⟨5, 6, .requestVote { term := 1, candidateId := 5, lastLogIndex := 0, lastLogTerm := 0 }⟩, fun _ => 0, rfl, ?_, ?_, ?_⟩
  · exact (List.append_nil _).symm
  · decide +kernel
  · decide +kernel

/-- Node 5 asks for a vote and is heard. -/
theorem rpc_bound_to_signer_vote :
    ∃ item, decodeResponse (onlySigned 3 voteRequest.bytes (List.replicate 64 9)) trustsFive .requestVote
        (envelopeOf voteRequest) = some item ∧ item.rpc = voteRequest ∧ item.actor = 5 := by
  refine ⟨⟨0, voteRequest⟩, by decide, rfl, ?_⟩
  obtain ⟨v, ⟨-, hv⟩, -, -, -, hactor⟩ := rpc_bound_to_signer (onlySigned 3 voteRequest.bytes (List.replicate 64 9)) trustsFive
    (fun eui v => eui = 5 ∧ v = .rpc voteRequest)
    (by rintro eui v ⟨-, rfl⟩; exact (by decide : voteRequest.bytes.length = voteRequest.type.size))
    (by rintro eui v ⟨rfl, hv⟩; cases hv; exact voteRequest_putBy)
    (fun eui bytes sig h => ⟨_, ⟨(verify_onlySigned h).1, rfl⟩, (verify_onlySigned h).2.symm⟩)
    .requestVote (envelopeOf voteRequest) ⟨0, voteRequest⟩ (by decide)
  cases hv
  exact hactor (fun _ => rfl)

/-- **The answer of node 5 is taken for node 1's request for a vote**: nothing else was signed, nothing was forged. -/
theorem answer_taken_for_request :
    let psa := onlySigned 3 appendAnswer.bytes (List.replicate 64 9)
    let signed := fun (eui : Nat) (v : SignedValue) => eui = 5 ∧ v = .rpc appendAnswer
    (∀ eui bytes sig, trustsFive.verify psa eui bytes sig = psaSuccess → ∃ v, signed eui v ∧ v.bytes = bytes) ∧
      ∃ item, decodeResponse psa trustsFive .requestVote (envelopeOf appendAnswer) = some item ∧
        u64At 0 (envelopeOf appendAnswer) = 5 ∧ item.rpc.type = .requestVote ∧ item.actor = 1 := by
  refine ⟨fun eui bytes sig h => ?_, ⟨0, ⟨.requestVote, appendAnswer.bytes⟩⟩, by decide, by decide, by decide, by decide⟩
  exact ⟨_, ⟨(verify_onlySigned h).1, rfl⟩, (verify_onlySigned h).2.symm⟩

end Ingress
end FloodEws
