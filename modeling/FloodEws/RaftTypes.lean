import Mathlib.Algebra.Group.Int.Defs
import Mathlib.Algebra.Group.Nat.Defs
import Mathlib.Data.List.Basic
/-!
# RaftTypes — `raft_types.hpp` and `callback.hpp`

The policy struct, the log entry, the six RPCs, the per-peer bookkeeping and the callbacks of the fog node's Raft
server.  Machine words are natural numbers; the few places where the C++ arithmetic can wrap say so with `wrap64`,
`sub64` and `add32`.  A fixed array whose tail is zero-initialised (`AppendEntries::m_entries`) is the list of its
filled slots.

Callbacks are observers: a call of one is an `Event`, and what the mandatory hooks and `m_snapshot_save` answer during
one public call of the server is an `Io`.
-/
namespace FloodEws
namespace Raft

abbrev Byte := UInt8

/-- Unsigned 64-bit arithmetic: the value kept in a `std::uint64_t`. -/
def wrap64 (n : Nat) : Nat := n % 2 ^ 64

/-- `a - b` on `std::uint64_t`. -/
def sub64 (a b : Nat) : Nat := (a + 2 ^ 64 - b) % 2 ^ 64

/-- `a + b` on `std::uint32_t`. -/
def add32 (a b : Nat) : Nat := (a + b) % 2 ^ 32

/-- `static_cast<std::int64_t>(now - then)`: the signed distance between two clock readings. -/
def elapsed (now since : Nat) : Int := Int.bmod ((now : Int) - since) (2 ^ 64)

/-- Bad node, all F's: the id that stands for no node. -/
def badNode : Nat := 2 ^ 64 - 1

/-- The policy struct `Cfg`.  A ring slot and `m_count` are 32-bit, so the capacity is positive and fits one. -/
structure Config where
  maxNodes : Nat
  logCapacity : Nat
  maxEntryData : Nat
  maxAppendEntries : Nat
  snapshotMax : Nat
  snapshotChunk : Nat
  snapshotThreshold : Nat
  electionTimeoutMinMs : Nat
  electionTimeoutSpreadMs : Nat
  heartbeatIntervalMs : Nat
  logCapacity_pos : 0 < logCapacity
  logCapacity_lt : logCapacity < 2 ^ 32

def defaultConfig : Config where
  maxNodes := 3
  logCapacity := 64
  maxEntryData := 96
  maxAppendEntries := 8
  snapshotMax := 512
  snapshotChunk := 256
  snapshotThreshold := 32
  electionTimeoutMinMs := 2500
  electionTimeoutSpreadMs := 1000
  heartbeatIntervalMs := 1000
  logCapacity_pos := by decide
  logCapacity_lt := by decide

/-- `enum class State`. -/
inductive Role where
  | follower
  | candidate
  | leader
deriving DecidableEq, Repr, Inhabited

inductive Error where
  | notLeader
  | logFull
  | shutdown
  | badArg
  | notFound
deriving DecidableEq, Repr

inductive EntryType where
  | noop
  | sensorData
  | egressMsg
deriving DecidableEq, Repr, Inhabited

structure Entry where
  term : Nat := 0
  index : Nat := 0
  type : EntryType := .noop
  dataLen : Nat := 0
  data : List Byte := []
deriving DecidableEq, Repr, Inhabited

def Entry.payload (e : Entry) : List Byte := e.data.take e.dataLen

structure RequestVote where
  term : Nat
  candidateId : Nat
  lastLogIndex : Nat
  lastLogTerm : Nat
  preVote : Bool := false
deriving DecidableEq, Repr

structure RequestVoteResp where
  term : Nat
  voteGranted : Bool
  preVote : Bool := false
deriving DecidableEq, Repr

structure AppendEntries where
  term : Nat
  leaderId : Nat
  prevLogIndex : Nat
  prevLogTerm : Nat
  leaderCommit : Nat
  nEntries : Nat
  entries : List Entry
deriving DecidableEq, Repr

/-- `view()`: the first `n_entries` slots of the array. -/
def AppendEntries.view (ae : AppendEntries) : List Entry :=
  (List.range ae.nEntries).map (fun i => ae.entries.getD i {})

@[simp] theorem AppendEntries.length_view (ae : AppendEntries) : ae.view.length = ae.nEntries := by
  simp [AppendEntries.view]

structure AppendEntriesResp where
  term : Nat
  success : Bool
  conflictIndex : Nat := 0
  conflictTerm : Nat := 0
  lastLogIndex : Nat
deriving DecidableEq, Repr

structure InstallSnapshot where
  term : Nat
  leaderId : Nat
  lastIncludedIndex : Nat
  lastIncludedTerm : Nat
  offset : Nat
  totalLen : Nat
  dataLen : Nat
  done : Bool
  data : List Byte
deriving DecidableEq, Repr

structure InstallSnapshotResp where
  term : Nat
  lastIncludedIndex : Nat
deriving DecidableEq, Repr

inductive Payload where
  | requestVote (rv : RequestVote)
  | requestVoteResp (rr : RequestVoteResp)
  | appendEntries (ae : AppendEntries)
  | appendEntriesResp (rr : AppendEntriesResp)
  | installSnapshot (is : InstallSnapshot)
  | installSnapshotResp (rr : InstallSnapshotResp)
deriving DecidableEq, Repr

structure Message where
  sender : Nat
  recipient : Nat
  payload : Payload
deriving DecidableEq, Repr

/-- Per-peer bookkeeping for the leader. -/
structure Peer where
  id : Nat
  nextIndex : Nat := 1
  matchIndex : Nat := 0
  lastContact : Nat := 0
  snapOffset : Nat := 0
  voteGranted : Bool := false
  isSelf : Bool := false
deriving DecidableEq, Repr

/-- One call of a callback.  A `send` also records the pair `(m_current_term, m_voted_for)` in memory at that moment,
an `apply` the log index it is made for, and a `snapshotLoad` the `m_last_included_index` being installed. -/
inductive Event where
  | send (term : Nat) (votedFor : Nat) (msg : Message)
  | apply (index : Nat) (entry : Entry)
  | persistState (term : Nat) (votedFor : Nat)
  | persistLogAppend (entry : Entry)
  | persistLogTruncate (fromIndex : Nat)
  | persistLogCompact (upToIndex : Nat)
  | snapshotSave (lastApplied : Nat) (bytes : List Byte)
  | snapshotLoad (lastIncludedIndex : Nat) (bytes : List Byte)
  | onStateChange (old new : Role)
deriving DecidableEq, Repr

/-- What the environment answers during one public call: the `k`-th reading of the clock and of the random source, and
`m_snapshot_save` if it is bound (`none` there is its negative return, "does not fit").  `m_snapshot_load` is only ever
called, so all that matters is whether it is bound. -/
structure Io where
  now : Nat → Nat
  rand : Nat → Nat
  snapshotSave : Option (Nat → Option (List Byte))
  snapshotLoad : Bool

end Raft
end FloodEws
