import FloodEws.Runs
import Mathlib.Data.Finset.Card
import Mathlib.Data.Fintype.Card
/-!
# Peers — the table of the raft nodes on the mesh

`NetworkService` reads the services that the mesh advertises and keeps the address of every raft node in a table of three
slots.  A slot is freed when its node has not been seen for two seconds, and a node that finds no slot is left out until
one is free.

`Tracks` says what the table knows of everything that was ever advertised.  If the nodes fit, it is the map one would
write down from that record: each node has the address it advertised last, if that is recent, and no other does
(`address_known`).
-/
namespace FloodEws
namespace Peers

variable {Addr : Type*}

def maxPeers : Nat := 3

def peerTimeoutMs : Int := 2000

def raftServiceEnterpriseNumber : Nat := 12345

/-- What is read of an `otServiceConfig`: `eui` is its service data as a word, `addr` its server data. -/
structure Service (Addr : Type*) where
  enterpriseNumber : Nat
  dataLength : Nat
  eui : Nat
  addr : Addr
deriving DecidableEq

structure ServicePeer (Addr : Type*) where
  eui : Nat := 0
  addr : Addr
  lastSeenMs : Int := 0
  valid : Bool := false
deriving DecidableEq

/-- `m_peers` and `m_eui`. -/
structure NetworkService (Addr : Type*) where
  peers : Fin maxPeers → ServicePeer Addr
  eui : Nat

namespace NetworkService

/-- Place `i` is changed. -/
def modify (t : NetworkService Addr) (i : Fin maxPeers) (p : ServicePeer Addr) : NetworkService Addr :=
  { t with peers := Function.update t.peers i p }

/-- The slot of the node, and the table with the slot claimed if it had none. -/
def findOrCreatePeer (t : NetworkService Addr) (eui : Nat) : Option (Fin maxPeers × NetworkService Addr) :=
  match (List.finRange maxPeers).find? fun i => (t.peers i).valid && (t.peers i).eui == eui with
  | some i => some (i, t)
  | none =>
    match (List.finRange maxPeers).find? fun i => !(t.peers i).valid with
    | some i => some (i, t.modify i { t.peers i with eui := eui, valid := true })
    | none => none

/-- A service that is a raft node's, and not our own. -/
def isPeer (t : NetworkService Addr) (service : Service Addr) : Bool :=
  service.enterpriseNumber == raftServiceEnterpriseNumber && service.dataLength == 8 && service.eui != t.eui

/-- One round of the loop of `discover_peers`, with the clock reading it takes. -/
def sight (t : NetworkService Addr) (x : Service Addr × Int) : NetworkService Addr :=
  if t.isPeer x.1 then
    match t.findOrCreatePeer x.1.eui with
    | some (i, t') => t'.modify i { t'.peers i with addr := x.1.addr, lastSeenMs := x.2 }
    | none => t
  else t

def pruneStalePeers (t : NetworkService Addr) (now : Int) : NetworkService Addr :=
  { t with peers := fun i =>
      if (t.peers i).valid && decide (now - (t.peers i).lastSeenMs > peerTimeoutMs) then
        { t.peers i with valid := false }
      else t.peers i }

def discoverPeers (t : NetworkService Addr) (services : List (Service Addr × Int)) (now : Int) : NetworkService Addr :=
  (services.foldl sight t).pruneStalePeers now

def getAddrFromEui (t : NetworkService Addr) (eui : Nat) : Option Addr :=
  ((List.finRange maxPeers).find? fun i => (t.peers i).valid && (t.peers i).eui == eui).map fun i => (t.peers i).addr

/-! ## The slots -/

variable {t : NetworkService Addr}

@[simp] theorem modify_self (i : Fin maxPeers) (p : ServicePeer Addr) : (t.modify i p).peers i = p := by
  simp [modify]

theorem modify_other {i j : Fin maxPeers} (p : ServicePeer Addr) (h : j ≠ i) : (t.modify i p).peers j = t.peers j := by
  simp [modify, h]

/-- The slot is in use for the node. -/
def Keeps (t : NetworkService Addr) (i : Fin maxPeers) (eui : Nat) : Prop :=
  (t.peers i).valid = true ∧ (t.peers i).eui = eui

/-- **The slot that is found** is the node's own, or a free one that is now the node's. -/
theorem find_cases {eui : Nat} {i : Fin maxPeers} {t' : NetworkService Addr}
    (h : t.findOrCreatePeer eui = some (i, t')) :
    (t.Keeps i eui ∧ t' = t) ∨
      ((∀ j, ¬ t.Keeps j eui) ∧ (t.peers i).valid = false ∧ t' = t.modify i { t.peers i with eui := eui, valid := true }) := by
  unfold findOrCreatePeer at h
  cases hown : (List.finRange maxPeers).find? fun i => (t.peers i).valid && (t.peers i).eui == eui with
  | some j =>
    rw [hown] at h
    obtain ⟨rfl, rfl⟩ := Prod.mk.inj (Option.some.inj h)
    have hj := List.find?_some hown
    simp only [Bool.and_eq_true, beq_iff_eq] at hj
    exact .inl ⟨hj, rfl⟩
  | none =>
    rw [hown] at h
    have hnone : ∀ j, ¬ t.Keeps j eui := fun j hk => by
      have := List.find?_eq_none.1 hown j (List.mem_finRange j)
      simp [hk.1, hk.2] at this
    cases hfree : (List.finRange maxPeers).find? fun i => !(t.peers i).valid with
    | some j =>
      simp only [hfree, Option.some.injEq, Prod.mk.injEq] at h
      obtain ⟨rfl, rfl⟩ := h
      exact .inr ⟨hnone, by simpa using List.find?_some hfree, rfl⟩
    | none => simp [hfree] at h

/-- No slot is found only if all are in use for other nodes. -/
theorem find_none {eui : Nat} (h : t.findOrCreatePeer eui = none) (i : Fin maxPeers) :
    (t.peers i).valid = true ∧ (t.peers i).eui ≠ eui := by
  unfold findOrCreatePeer at h
  cases hown : (List.finRange maxPeers).find? fun i => (t.peers i).valid && (t.peers i).eui == eui with
  | some j => simp [hown] at h
  | none =>
    cases hfree : (List.finRange maxPeers).find? fun i => !(t.peers i).valid with
    | some j => simp [hown, hfree] at h
    | none =>
      have hvalid := by simpa using List.find?_eq_none.1 hfree i (List.mem_finRange i)
      have hother := by simpa using List.find?_eq_none.1 hown i (List.mem_finRange i)
      exact ⟨hvalid, hother hvalid⟩

theorem getAddr_none {eui : Nat} (h : ∀ i, ¬ t.Keeps i eui) : t.getAddrFromEui eui = none := by
  simp only [getAddrFromEui, Option.map_eq_none_iff, List.find?_eq_none, Bool.and_eq_true, beq_iff_eq]
  exact fun i _ => h i

/-- What a lookup returns is the address in a slot of the node. -/
theorem getAddr_some {eui : Nat} {a : Addr} (h : t.getAddrFromEui eui = some a) :
    ∃ i, t.Keeps i eui ∧ (t.peers i).addr = a := by
  simp only [getAddrFromEui, Option.map_eq_some_iff] at h
  obtain ⟨i, hi, ha⟩ := h
  have hk := List.find?_some hi
  simp only [Bool.and_eq_true, beq_iff_eq] at hk
  exact ⟨i, hk, ha⟩

end NetworkService

/-! ## The record of what was advertised -/

/-- A raft node's service as it was read. -/
structure Sighting (Addr : Type*) where
  eui : Nat
  addr : Addr
  readMs : Int
deriving DecidableEq

/-- What one reading of the services adds to the record, newest first. -/
def sightings (t : NetworkService Addr) (services : List (Service Addr × Int)) : List (Sighting Addr) :=
  ((services.filter fun x => t.isPeer x.1).map fun x => ⟨x.1.eui, x.1.addr, x.2⟩).reverse

def latest (seen : List (Sighting Addr)) (eui : Nat) : Option (Sighting Addr) := seen.find? fun x => x.eui == eui

/-- The service, with everything it has seen and the time of its last pruning. -/
structure Watch (Addr : Type*) where
  table : NetworkService Addr
  seen : List (Sighting Addr) := []
  pruned : Int := 0

structure Discover (Addr : Type*) where
  services : List (Service Addr × Int)
  now : Int

/-- A node with its periodic `discover_peers`; the clock does not go back. -/
def watch (eui : Nat) (zero : Addr) : Sys (Watch Addr) (Discover Addr) where
  init := { table := { peers := fun _ => { addr := zero }, eui := eui } }
  enabled s a := s.pruned ≤ a.now
  exec s a :=
    { table := s.table.discoverPeers a.services a.now
      seen := sightings s.table a.services ++ s.seen
      pruned := a.now }

/-- The raft nodes that are advertised are those of `fleet`. -/
def Within (fleet : Finset Nat) (s : Watch Addr) (a : Discover Addr) : Prop :=
  ∀ x ∈ a.services, s.table.isPeer x.1 = true → x.1.eui ∈ fleet

theorem latest_cons_self (x : Sighting Addr) (seen : List (Sighting Addr)) : latest (x :: seen) x.eui = some x := by
  simp [latest]

theorem latest_cons_other {x : Sighting Addr} {eui : Nat} (h : x.eui ≠ eui) (seen : List (Sighting Addr)) :
    latest (x :: seen) eui = latest seen eui := by
  simp [latest, h]

/-- What the table has kept of the record `seen`, at the time `pruned` and with the nodes of `fleet`. -/
structure Tracks (fleet : Finset Nat) (t : NetworkService Addr) (seen : List (Sighting Addr)) (pruned : Int) : Prop where
  distinct : ∀ i j eui, t.Keeps i eui → t.Keeps j eui → i = j
  inside : ∀ i, (t.peers i).valid = true → (t.peers i).eui ∈ fleet
  known : ∀ i eui, t.Keeps i eui → latest seen eui = some ⟨eui, (t.peers i).addr, (t.peers i).lastSeenMs⟩
  kept : ∀ eui x, latest seen eui = some x → pruned - x.readMs ≤ peerTimeoutMs → ∃ i, t.Keeps i eui

namespace Tracks

variable {fleet : Finset Nat} {t : NetworkService Addr} {seen : List (Sighting Addr)} {pruned : Int}

/-- The node's slot is the one that is found. -/
theorem find_own (h : Tracks fleet t seen pruned) {eui : Nat} {i : Fin maxPeers} (hi : t.Keeps i eui) :
    t.getAddrFromEui eui = some (t.peers i).addr := by
  cases hget : t.getAddrFromEui eui with
  | none =>
    simp only [NetworkService.getAddrFromEui, Option.map_eq_none_iff, List.find?_eq_none] at hget
    have := hget i (List.mem_finRange i)
    simp [hi.1, hi.2] at this
  | some a =>
    obtain ⟨j, hj, ha⟩ := NetworkService.getAddr_some hget
    rw [h.distinct i j eui hi hj, ha]

/-- **The nodes of the fleet all find a slot**: three others would be in the way, and they are of the fleet too. -/
theorem finds (h : Tracks fleet t seen pruned) (hfleet : fleet.card ≤ maxPeers) {eui : Nat} (hin : eui ∈ fleet) :
    t.findOrCreatePeer eui ≠ none := by
  intro hnone
  have hfull := NetworkService.find_none hnone
  have hinj : Function.Injective fun i => (t.peers i).eui := by
    intro i j heq
    exact h.distinct i j (t.peers i).eui ⟨(hfull i).1, rfl⟩ ⟨(hfull j).1, heq.symm⟩
  have hsub : insert eui (Finset.univ.image fun i => (t.peers i).eui) ⊆ fleet := by
    intro e he
    rcases Finset.mem_insert.1 he with rfl | he
    · exact hin
    · obtain ⟨i, -, rfl⟩ := Finset.mem_image.1 he
      exact h.inside i (hfull i).1
  have hnew : eui ∉ Finset.univ.image fun i => (t.peers i).eui := by
    intro he
    obtain ⟨i, -, heq⟩ := Finset.mem_image.1 he
    exact (hfull i).2 heq
  have hcard := Finset.card_le_card hsub
  rw [Finset.card_insert_of_notMem hnew, Finset.card_image_of_injective _ hinj, Finset.card_univ, Fintype.card_fin] at hcard
  omega

/-- **A node is sighted**: it has a slot of its own, with what was read now. -/
theorem claim (h : Tracks fleet t seen pruned) {x : Sighting Addr} (hin : x.eui ∈ fleet) {i : Fin maxPeers}
    {p : ServicePeer Addr} (hp : p = ⟨x.eui, x.addr, x.readMs, true⟩)
    (hfree : ∀ j, t.Keeps j x.eui → j = i) (hi : (t.peers i).valid = true → (t.peers i).eui = x.eui) :
    Tracks fleet (t.modify i p) (x :: seen) pruned := by
  subst hp
  -- the other slots are those of other nodes, as they were
  have hother : ∀ j eui, j ≠ i → (t.modify i ⟨x.eui, x.addr, x.readMs, true⟩).Keeps j eui → t.Keeps j eui ∧ x.eui ≠ eui := by
    intro j eui hj hk
    simp only [NetworkService.Keeps, NetworkService.modify_other _ hj] at hk
    exact ⟨hk, fun heq => hj (hfree j (heq ▸ hk))⟩
  have hself : ∀ eui, (t.modify i ⟨x.eui, x.addr, x.readMs, true⟩).Keeps i eui ↔ x.eui = eui := by
    simp [NetworkService.Keeps]
  refine ⟨fun j k eui hj hk => ?_, fun j hj => ?_, fun j eui hj => ?_, fun eui y hy hfresh => ?_⟩
  · by_cases hji : j = i <;> by_cases hki : k = i
    · rw [hji, hki]
    · exact absurd ((hself eui).1 (hji ▸ hj)) (hother k eui hki hk).2
    · exact absurd ((hself eui).1 (hki ▸ hk)) (hother j eui hji hj).2
    · exact h.distinct j k eui (hother j eui hji hj).1 (hother k eui hki hk).1
  · by_cases hji : j = i
    · subst hji
      simpa using hin
    · rw [NetworkService.modify_other _ hji] at hj ⊢
      exact h.inside j hj
  · by_cases hji : j = i
    · subst hji
      obtain rfl := (hself eui).1 hj
      rw [NetworkService.modify_self]
      exact latest_cons_self x seen
    · obtain ⟨hk, hne⟩ := hother j eui hji hj
      rw [latest_cons_other hne, NetworkService.modify_other _ hji]
      exact h.known j eui hk
  · by_cases heq : x.eui = eui
    · exact ⟨i, (hself eui).2 heq⟩
    · rw [latest_cons_other heq] at hy
      obtain ⟨j, hj⟩ := h.kept eui y hy hfresh
      have hji : j ≠ i := by
        rintro rfl
        exact heq ((hi hj.1).symm.trans hj.2)
      exact ⟨j, by simpa only [NetworkService.Keeps, NetworkService.modify_other _ hji] using hj⟩

/-- **One service is read.** -/
theorem sight (h : Tracks fleet t seen pruned) (hfleet : fleet.card ≤ maxPeers) {x : Service Addr × Int}
    (hpeer : t.isPeer x.1 = true) (hin : x.1.eui ∈ fleet) :
    Tracks fleet (t.sight x) (⟨x.1.eui, x.1.addr, x.2⟩ :: seen) pruned := by
  cases hfind : t.findOrCreatePeer x.1.eui with
  | none => exact absurd hfind (h.finds hfleet hin)
  | some slot =>
    obtain ⟨i, t'⟩ := slot
    have hsight : t.sight x = t'.modify i { t'.peers i with addr := x.1.addr, lastSeenMs := x.2 } := by
      simp [NetworkService.sight, hpeer, hfind]
    rw [hsight]
    rcases NetworkService.find_cases hfind with ⟨hi, rfl⟩ | ⟨hnew, hfree, rfl⟩
    · exact h.claim hin (by rw [← hi.1, ← hi.2]) (fun j hj => h.distinct j i _ hj hi) (fun _ => hi.2)
    · -- the slot was free: no slot is the node's, and this one is nobody's
      have htwice : ∀ p q, (t.modify i p).modify i q = t.modify i q := by
        intro p q
        simp [NetworkService.modify]
      rw [htwice]
      refine h.claim hin (by rw [NetworkService.modify_self]) (fun j hj => absurd hj (hnew j)) (fun hi => ?_)
      rw [hfree] at hi
      cases hi

/-- **The table is pruned**: the nodes whose last sighting is too old are gone, and no others. -/
theorem prune (h : Tracks fleet t seen pruned) {now : Int} (hnow : pruned ≤ now) :
    Tracks fleet (t.pruneStalePeers now) seen now ∧
      ∀ i eui, (t.pruneStalePeers now).Keeps i eui → now - ((t.pruneStalePeers now).peers i).lastSeenMs ≤ peerTimeoutMs := by
  have hkeeps : ∀ i eui, (t.pruneStalePeers now).Keeps i eui ↔
      t.Keeps i eui ∧ now - (t.peers i).lastSeenMs ≤ peerTimeoutMs := by
    intro i eui
    simp only [NetworkService.Keeps, NetworkService.pruneStalePeers, Bool.and_eq_true, decide_eq_true_eq]
    split
    · next hold => exact ⟨fun hk => (by cases hk.1), fun hk => by omega⟩
    · next hold =>
      refine ⟨fun hk => ⟨hk, ?_⟩, fun hk => hk.1⟩
      have hle : ¬ now - (t.peers i).lastSeenMs > peerTimeoutMs := fun hgt => hold ⟨hk.1, hgt⟩
      omega
  have hsame : ∀ i, ((t.pruneStalePeers now).peers i).addr = (t.peers i).addr ∧
      ((t.pruneStalePeers now).peers i).lastSeenMs = (t.peers i).lastSeenMs := by
    intro i
    simp only [NetworkService.pruneStalePeers]
    split <;> exact ⟨rfl, rfl⟩
  refine ⟨⟨fun i j eui hi hj => ?_, fun i hi => ?_, fun i eui hi => ?_, fun eui x hx hfresh => ?_⟩, fun i eui hi => ?_⟩
  · exact h.distinct i j eui ((hkeeps i eui).1 hi).1 ((hkeeps j eui).1 hj).1
  · obtain ⟨hk, -⟩ := (hkeeps i _).1 ⟨hi, rfl⟩
    exact hk.2 ▸ h.inside i hk.1
  · rw [(hsame i).1, (hsame i).2]
    exact h.known i eui ((hkeeps i eui).1 hi).1
  · obtain ⟨i, hi⟩ := h.kept eui x hx (by omega)
    have hseen := Option.some.inj ((h.known i eui hi).symm.trans hx)
    exact ⟨i, (hkeeps i eui).2 ⟨hi, by rw [← hseen] at hfresh; exact hfresh⟩⟩
  · rw [(hsame i).2]
    exact ((hkeeps i eui).1 hi).2

end Tracks

/-! ## Over a run -/

section Run

variable {fleet : Finset Nat}

theorem isPeer_sight (t : NetworkService Addr) (x : Service Addr × Int) : (t.sight x).isPeer = t.isPeer := by
  have heui : (t.sight x).eui = t.eui := by
    unfold NetworkService.sight
    split
    · split
      · next hfind =>
        rcases NetworkService.find_cases hfind with ⟨-, rfl⟩ | ⟨-, -, rfl⟩ <;> rfl
      · rfl
    · rfl
  funext service
  rw [NetworkService.isPeer, NetworkService.isPeer, heui]

theorem sightings_cons (t : NetworkService Addr) (x : Service Addr × Int) (xs : List (Service Addr × Int)) :
    sightings t (x :: xs) =
      sightings t xs ++ if t.isPeer x.1 then [⟨x.1.eui, x.1.addr, x.2⟩] else [] := by
  by_cases h : t.isPeer x.1 = true <;> simp [sightings, h]

/-- **The services are read one by one.** -/
theorem Tracks.sights (hfleet : fleet.card ≤ maxPeers) {pruned : Int} : ∀ (xs : List (Service Addr × Int))
    {t : NetworkService Addr} {seen : List (Sighting Addr)}, Tracks fleet t seen pruned →
      (∀ x ∈ xs, t.isPeer x.1 = true → x.1.eui ∈ fleet) →
        Tracks fleet (xs.foldl NetworkService.sight t) (sightings t xs ++ seen) pruned
  | [], _, _, h, _ => h
  | x :: xs, t, seen, h, hin => by
    have hrest : ∀ y ∈ xs, (t.sight x).isPeer y.1 = true → y.1.eui ∈ fleet := by
      rw [isPeer_sight]
      exact fun y hy => hin y (List.mem_cons_of_mem x hy)
    have hsightings : sightings t xs = sightings (t.sight x) xs := by rw [sightings, sightings, isPeer_sight]
    rw [List.foldl_cons, sightings_cons, List.append_assoc, hsightings]
    by_cases hpeer : t.isPeer x.1 = true
    · rw [if_pos hpeer]
      exact Tracks.sights hfleet xs (h.sight hfleet hpeer (hin x List.mem_cons_self hpeer)) hrest
    · rw [if_neg hpeer]
      have hsame : t.sight x = t := by simp [NetworkService.sight, hpeer]
      rw [hsame] at hrest ⊢
      exact Tracks.sights hfleet xs h hrest

/-- What is in the table was seen recently enough at the last pruning. -/
def Recent (s : Watch Addr) : Prop :=
  ∀ i eui, s.table.Keeps i eui → s.pruned - (s.table.peers i).lastSeenMs ≤ peerTimeoutMs

/-- **The table tracks the record in every run.** -/
theorem tracks_reachable {own : Nat} {zero : Addr} (hfleet : fleet.card ≤ maxPeers) {s : Watch Addr}
    (h : (watch own zero).Reachable (Within fleet) s) :
    Tracks fleet s.table s.seen s.pruned ∧ Recent s := by
  refine Sys.Reachable.invariant (P := fun x => Tracks fleet x.table x.seen x.pruned ∧ Recent x) h ⟨⟨?_, ?_, ?_, ?_⟩, ?_⟩ ?_
  · exact fun i j eui hi => by cases hi.1
  · exact fun i hi => by cases hi
  · exact fun i eui hi => by cases hi.1
  · exact fun eui x hx => by cases hx
  · exact fun i eui hi => by cases hi.1
  · rintro s a ⟨htracks, -⟩ hnow hin
    exact (htracks.sights hfleet a.services hin).prune hnow

/-- **A node's address is known exactly if it was advertised recently**, and it is the one advertised last, as long as
the raft nodes that are advertised fit in the table. -/
theorem address_known {own : Nat} {zero : Addr} (hfleet : fleet.card ≤ maxPeers) {s : Watch Addr}
    (h : (watch own zero).Reachable (Within fleet) s) (eui : Nat) :
    s.table.getAddrFromEui eui =
      ((latest s.seen eui).filter fun x => s.pruned - x.readMs ≤ peerTimeoutMs).map Sighting.addr := by
  obtain ⟨htracks, hrecent⟩ := tracks_reachable hfleet h
  by_cases hkept : ∃ i, s.table.Keeps i eui
  · obtain ⟨i, hi⟩ := hkept
    have hfresh := hrecent i eui hi
    rw [htracks.find_own hi, htracks.known i eui hi, Option.filter_some_pos (by exact decide_eq_true hfresh), Option.map_some]
  · have hnot : ∀ i, ¬ s.table.Keeps i eui := not_exists.1 hkept
    rw [NetworkService.getAddr_none hnot]
    cases hlast : latest s.seen eui with
    | none => rfl
    | some x =>
      have hold : ¬ s.pruned - x.readMs ≤ peerTimeoutMs := fun hfresh => hkept (htracks.kept eui x hlast hfresh)
      rw [Option.filter_some_neg (by simpa using hold), Option.map_none]

/-- The raft service of a node, at an address. -/
def raftService (eui : Nat) (addr : Nat) : Service Nat := ⟨raftServiceEnterpriseNumber, 8, eui, addr⟩

/-- Node 1 sees 2 and 3 and itself; then only 3, at a new address, until 2 is too long ago. -/
def moved : List (Discover Nat) :=
  [⟨[(raftService 2 20, 100), (raftService 1 10, 100), (raftService 3 30, 101)], 101⟩,
    ⟨[(raftService 3 31, 1600)], 1601⟩, ⟨[(⟨7, 8, 2, 99⟩, 2200)], 2200⟩]

theorem address_known_moved :
    ((watch 1 0).run moved (watch 1 0).init).table.getAddrFromEui 3 = some 31 ∧
      ((watch 1 0).run moved (watch 1 0).init).table.getAddrFromEui 2 = none := by
  have hlegal : (watch 1 0).Legal (Within {2, 3}) moved (watch 1 0).init := by
    refine ⟨?_, ?_, ?_, ?_, ?_, ?_, trivial⟩ <;>
      simp only [watch, Within, raftService] <;> decide
  have h := Sys.reaches_run moved (watch 1 0).init hlegal
  exact ⟨(address_known (by decide) h 3).trans (by decide), (address_known (by decide) h 2).trans (by decide)⟩

end Run

end Peers
end FloodEws
