import FloodEws.Provenance
import FloodEws.Telemetry
import FloodEws.TxQueue
/-!
# Uplink — from the log to the gateway

The coordinator of a leader reads a batch back from its log and hands it to the LoRaWAN service, which packs it into a
`Payload`.  What comes in at the network server, cut off or not, is decoded, and is the object of the event that the
gateway's bridge folds into its live store and makes an advisory of.  It may come in long after it was handed over, when
the node that did has been through power cycles.

A log has batches that were filed, records and no-ops, and only the first are as long as a batch.  So whatever any node
hands over was filed, and what the gateway shows of it was signed by a sensor (`live_readings_signed`); and the bridge
submits no critical advisory because of one sensor alone (`critical_needs_two`).
-/
namespace FloodEws

open Raft (Byte)

namespace Raft

open Egress (EgressCoordinator)
open Vote (Batch)

/-! ## What a node hands over -/

/-- The hooks of a step read the log of their node (`m_read_entry` is `get_entry`), as it is before the step or after. -/
def Deployment.FogReads (D : Deployment) (f : Fog) : FogAction → Prop
  | .step a hooks => ∀ n, a.node = some n → ∀ k i e, (hooks k).readEntry i = some e →
      (f.fleet.node n).server.log.at? defaultConfig i = some e ∨
        ((D.sys.exec f.fleet a).node n).server.log.at? defaultConfig i = some e
  | .alert _ _ => True

/-- The steps fit, and their hooks read the logs. -/
def Deployment.Reads (D : Deployment) (f : Fog) (b : FogAction) : Prop :=
  D.FogMeets (Nests engineSetup.TermsFit) f b ∧ D.FogReads f b

/-- Each batch the coordinator has handed over is the beginning of an entry that `P` allows and that is long enough. -/
def HandsOver (P : EntryType → List Byte → Prop) {cap : Nat} (c : EgressCoordinator cap) : Prop :=
  ∀ batch term index seq, .lorawanSend batch term index seq ∈ c.calls →
    ∃ e : Entry, e.Kept P ∧ batchSize ≤ e.dataLen ∧ batch = e.data.take batchSize

/-- The hooks read only entries that `P` allows. -/
def ReadsKept (P : EntryType → List Byte → Prop) (hooks : Egress.Hooks) : Prop :=
  ∀ i e, hooks.readEntry i = some e → e.Kept P

section

variable {P : EntryType → List Byte → Prop} {cap : Nat} {c : EgressCoordinator cap} {hooks : Egress.Hooks}

theorem HandsOver.submit (h : HandsOver P c) (rec : Egress.EgressRecord) : HandsOver P (c.submit hooks rec) := by
  intro batch term index seq hmem
  rcases List.mem_cons.1 hmem with heq | hmem
  · cases heq
  · exact h batch term index seq hmem

theorem HandsOver.dispatch (h : HandsOver P c) (hread : ReadsKept P hooks) (seq index : Nat) :
    HandsOver P (c.dispatch batchSize hooks seq index) := by
  unfold EgressCoordinator.dispatch
  cases hentry : hooks.readEntry index with
  | none => exact h.submit _
  | some e =>
    dsimp only
    split
    · exact h
    · rename_i hlen
      intro batch term i s hmem
      rcases List.mem_cons.1 hmem with heq | hmem
      · injection heq with hbatch
        exact ⟨e, hread index e hentry, Nat.le_of_not_lt hlen, hbatch⟩
      · exact h batch term i s hmem

theorem HandsOver.beginEgress (h : HandsOver P c) (hread : ReadsKept P hooks) (index : Nat) :
    HandsOver P (c.beginEgress batchSize hooks index) := by
  unfold EgressCoordinator.beginEgress
  split
  · exact h
  · dsimp only
    split
    · exact h.submit _
    · exact (h.submit _).dispatch hread _ _

theorem HandsOver.onBecameLeader (h : HandsOver P c) (hread : ReadsKept P hooks) :
    HandsOver P (c.onBecameLeader batchSize hooks) := by
  rw [EgressCoordinator.onBecameLeader_eq]
  split
  · exact h
  · exact HandsOver.dispatch (c := { c with tracker := c.tracker.outstanding.2 }) h hread _ _

theorem HandsOver.callback {app : Application} (h : HandsOver P app.coordinator) (hread : ReadsKept P hooks) (ev : Event) :
    HandsOver P (app.callback hooks ev).coordinator := by
  cases ev with
  | apply k e =>
    show HandsOver P (app.onApply hooks e).coordinator
    have halert : (app.checkAlert e).coordinator = app.coordinator := by
      unfold Application.checkAlert
      dsimp only
      split
      · rfl
      · split <;> rfl
    unfold Application.onApply
    cases e.type with
    | noop => exact h
    | egressMsg =>
      dsimp only
      split <;> exact h
    | sensorData => exact HandsOver.beginEgress (halert ▸ h) hread e.index
  | onStateChange old new =>
    show HandsOver P (if new = .leader then _ else app).coordinator
    split
    · exact h.onBecameLeader hread
    · exact h
  | _ => exact h

end

/-- **What a node hands over was filed**: of all that is in a log only a batch is long enough. -/
theorem handed_filed {D : Deployment} {x : Basin} (h : D.basin.Reachable (BasinMeets D.Reads) x) {n : Nat}
    (hn : n ∈ expectedEuis) {batch : List Byte} {term index seq : Nat}
    (hc : .lorawanSend batch term index seq ∈ (x.fog.app n).coordinator.calls) :
    ∃ m b gap, (m, b) ∈ x.filed ∧ batch = b.image gap := by
  have hruns := fog_runs (fun f b hok => hok.1) h
  have hhands : HandsOver (FiledIn x.filed) (x.fog.app n).coordinator := by
    refine app_invariant (P := FiledIn x.filed) (G := ReadsKept (FiledIn x.filed))
      (Q := fun app => HandsOver (FiledIn x.filed) app.coordinator) (fun _ _ hok => hok.2) ?_
      (fun _ _ _ _ hmem => by cases hmem) ?_ (fun hooks ev app hread hq _ => hq.callback hread ev) hruns hn
    · -- what is read is in a slot of a ring, and the rings have only what was submitted
      intro f a hooks k hreach hen hok hnode hk j i e hread
      have hplain := fog_plain (hreach.mono (fun _ _ hok => hok.2)) hk
      have hplain' := fog_plain ((hreach.mono (fun _ _ hok => hok.2)).trans (.single ⟨_, hen, hok.2, rfl⟩)) hk
      rcases hok.1.2 k hnode j i e hread with hat | hat
      · obtain ⟨slot, rfl⟩ := LogRing.at?_eq_buf hat
        exact hplain.slots slot
      · obtain ⟨slot, rfl⟩ := LogRing.at?_eq_buf hat
        exact hplain'.slots slot
    · intro leads packet app hq
      show HandsOver _ (Application.onAlert leads packet app).coordinator
      unfold Application.onAlert
      split
      · exact hq
      · split <;> exact hq
  obtain ⟨e, ⟨⟨hlen, -⟩, hfrom⟩, hlong, rfl⟩ := hhands batch term index seq hc
  have hsize : batchSize = 80 := rfl
  rcases hfrom with ⟨-, hnil⟩ | hfrom
  · rw [hnil, List.length_nil] at hlen
    omega
  · cases htype : e.type with
    | noop =>
      rw [htype] at hfrom
      exact hfrom.elim
    | egressMsg =>
      rw [htype] at hfrom
      have hrecord : e.data.length = 16 := hfrom
      omega
    | sensorData =>
      rw [htype] at hfrom
      obtain ⟨m, b, gap, hb, hdata⟩ := hfrom
      refine ⟨m, b, gap, hb, ?_⟩
      rw [hdata, List.take_of_length_le (Nat.le_of_eq (b.length_image gap))]

end Raft

/-! ## What the gateway makes of it -/

namespace Lorawan

/-- **A frame that is decoded at all says what the payload says**, with as many of its entries as are left. -/
theorem decode_take {p : Payload} (hcount : p.count.toNat ≤ maxEntries) (halert : p.alert = 0 ∨ p.alert = 1) (k : Nat)
    (fPort : Option Nat) {d : Decoded} (hd : (decodeUplink ⟨(wireBytes p).take k, fPort⟩).data = some d) :
    ∃ n, d = p.decoded n := by
  rw [wireBytes_eq, List.take_append, length_header] at hd
  rcases Nat.lt_or_ge k 22 with hk | hk
  · have hshort : (p.header.take k ++ p.body.take (k - 22)).length < headerSize := by
      rw [Nat.sub_eq_zero_of_le (Nat.le_of_lt hk), List.take_zero, List.append_nil, List.length_take, length_header]
      exact Nat.lt_of_le_of_lt (Nat.min_le_left _ _) hk
    unfold decodeUplink at hd
    rw [if_pos hshort] at hd
    cases hd
  · rw [List.take_of_length_le (by rw [length_header]; exact hk)] at hd
    have hbody : p.body.take (k - 22) = p.body.take (min (k - 22) p.body.length) := List.take_eq_take_min
    rw [hbody, decode_cut hcount halert (Nat.min_le_right _ _)] at hd
    split at hd
    · exact ⟨_, (Option.some.inj hd).symm⟩
    · exact ⟨_, (Option.some.inj hd).symm⟩

/-- Its entries are entries of the batch. -/
theorem mem_decoded {nodeId : UInt64} {b : Vote.Batch} {term index : UInt64} {seq : UInt32} (hlen : b.entries.length = 3)
    {n : Nat} {y : DecodedEntry} (hy : y ∈ ((Payload.ofBatch nodeId b term index seq).decoded n).entries) :
    ∃ x ∈ b.entries, y = (Entry.ofReading x).decoded := by
  obtain ⟨e, he, rfl⟩ := List.mem_map.1 hy
  obtain ⟨i, hi, rfl⟩ := List.getElem_of_mem (List.mem_of_mem_take he)
  rw [Vector.length_toList] at hi
  have hlt : i < b.entries.length := hlen ▸ hi
  refine ⟨b.entries[i], List.getElem_mem _, ?_⟩
  simp [Payload.ofBatch, hlt]

end Lorawan

namespace Telemetry

open Lorawan (Decoded DecodedEntry)

/-- The `float64` nearest to a whole number, which has 53 binary digits; halfway between two it is the even one. -/
def float64 (n : Nat) : Nat :=
  let unit := 2 ^ (n.log2 - 52)
  let rest := n % unit
  (if 2 * rest < unit ∨ 2 * rest = unit ∧ n / unit % 2 = 0 then n / unit else n / unit + 1) * unit

/-- `FlexUint.UnmarshalJSON`, of a number: it goes through `float64`.  What Go makes of a negative one, or of one from
2^64 on, is up to the machine; the codec reads none from any bytes. -/
def flexUint (num : Int) : UInt64 := .ofNat (float64 num.toNat)

/-- What `json.Unmarshal` makes of an entry that the codec has decoded. -/
def SensorEntry.unmarshal (y : DecodedEntry) : SensorEntry where
  deviceEui := y.deviceEui
  waterLevelMm := flexUint y.waterLevelMm
  validity := y.validity
  validityCode := flexUint y.validityCode
  outlier := y.outlier
  detail := flexUint y.detail
  timestamp := flexUint y.timestamp

def Data.unmarshal (d : Decoded) : Data where
  nodeId := d.nodeId
  raftTerm := flexUint d.raftTerm
  raftLogIndex := flexUint d.raftLogIndex
  seq := flexUint d.seq
  alert := d.alert
  count := flexUint d.count
  entries := d.entries.map SensorEntry.unmarshal

theorem float64_of_lt {n : Nat} (h : n < 2 ^ 53) : float64 n = n := by
  have hlog : n.log2 - 52 = 0 := by
    rcases Nat.eq_zero_or_pos n with rfl | hpos
    · rfl
    · have := (Nat.log2_lt (Nat.ne_of_gt hpos)).2 h
      omega
  unfold float64
  dsimp only
  rw [hlog, Nat.pow_zero, Nat.mod_one, Nat.div_one, Nat.mul_one]
  exact if_pos (.inl (by decide))

theorem flexUint_of_lt {n : Nat} (h : n < 2 ^ 53) : (flexUint n).toNat = n := by
  unfold flexUint
  rw [Int.toNat_natCast, float64_of_lt h, UInt64.toNat_ofNat', Nat.mod_eq_of_lt (by omega)]

namespace Bridge

/-- **What one arrival does to the live store and the advisories.** -/
theorem handleUplink_cases (a : Arrival) (b : Bridge) :
    ((b.handleUplink a).2.live = b.live ∧ (b.handleUplink a).2.advisories = b.advisories) ∨
    ∃ u, a.uplink? = some u ∧ (b.handleUplink a).2.live = b.live.map (updateSensors u) ∧
      ((b.handleUplink a).2.advisories = b.advisories ∨
        ∃ adv, adv.severity = u.severity ∧ (b.handleUplink a).2.advisories = b.advisories ++ [adv]) := by
  unfold handleUplink
  cases hu : a.uplink? with
  | none => exact .inl ⟨rfl, rfl⟩
  | some u =>
    dsimp only
    split
    · exact .inl ⟨rfl, rfl⟩
    · refine .inr ⟨u, rfl, ?_⟩
      split
      · exact ⟨rfl, .inl rfl⟩
      · exact ⟨rfl, .inr ⟨_, rfl, rfl⟩⟩

/-- **What is in the live store came with an uplink**, or was there. -/
theorem live_handleAll (arrivals : List Arrival) {b : Bridge} {old live : String → Option SensorEntry}
    (hold : b.live = some old) (h : (b.handleAll arrivals).live = some live) {s : String} {e : SensorEntry}
    (he : live s = some e) :
    old s = some e ∨ ∃ a ∈ arrivals, ∃ u, a.uplink? = some u ∧ e ∈ u.object.entries ∧ e.deviceEui = s := by
  induction arrivals generalizing b old with
  | nil =>
    obtain rfl := Option.some.inj (hold.symm.trans h)
    exact .inl he
  | cons a arrivals ih =>
    rcases handleUplink_cases a b with ⟨hlive, -⟩ | ⟨u, hu, hlive, -⟩
    · rcases ih (hlive.trans hold) h with hrest | ⟨a', ha', hrest⟩
      · exact .inl hrest
      · exact .inr ⟨a', List.mem_cons_of_mem a ha', hrest⟩
    · rw [hold] at hlive
      rcases ih hlive h with hrest | ⟨a', ha', hrest⟩
      · -- after this uplink the sensor's entry is the uplink's, if it has one
        rcases Option.or_eq_some_iff.1 hrest with hnew | ⟨-, hkept⟩
        · obtain ⟨hmem, -, hkey⟩ := indexBy_some hnew
          exact .inr ⟨a, List.mem_cons_self, u, hu, hmem, hkey⟩
        · exact .inl hkept
      · exact .inr ⟨a', List.mem_cons_of_mem a ha', hrest⟩

/-- Every advisory has the severity of an uplink. -/
theorem advisories_handleAll (arrivals : List Arrival) {b : Bridge} {adv : Gateway.Advisory}
    (h : adv ∈ (b.handleAll arrivals).advisories) :
    adv ∈ b.advisories ∨ ∃ a ∈ arrivals, ∃ u, a.uplink? = some u ∧ adv.severity = u.severity := by
  induction arrivals generalizing b with
  | nil => exact .inl h
  | cons a arrivals ih =>
    rcases ih h with hold | ⟨a', ha', hrest⟩
    · rcases handleUplink_cases a b with ⟨-, hsame⟩ | ⟨u, hu, -, hsame | ⟨adv', hsev, hsame⟩⟩
      · exact .inl (hsame ▸ hold)
      · exact .inl (hsame ▸ hold)
      · rw [hsame] at hold
        rcases List.mem_append.1 hold with hold | hold
        · exact .inl hold
        · obtain rfl := List.mem_singleton.1 hold
          exact .inr ⟨a, List.mem_cons_self, u, hu, hsev⟩
    · exact .inr ⟨a', List.mem_cons_of_mem a ha', hrest⟩

end Bridge

end Telemetry
namespace Raft

open Lorawan (wireBytes decodeUplink)
open Telemetry (Data SensorEntry Arrival Bridge)
open Vote (Batch)

/-! ## From the sensors to the gateway -/

/-- The payload of a batch that the node hands over. -/
def payloadOf (n : Nat) (batch : List Byte) (term index seq : Nat) : Lorawan.Payload :=
  .ofBatch (.ofNat n) (Batch.read batch) (.ofNat term) (.ofNat index) (.ofNat seq)

/-- The object of an event as `json.Unmarshal` leaves it: the codec has none for a frame that is cut off in its header. -/
def objectOf (frame : List UInt8) (fPort : Option Nat) : Data :=
  ((decodeUplink ⟨frame, fPort⟩).data.map Data.unmarshal).getD {}

/-- The object of an event that the network server makes of what one of the fog nodes has handed over since it booted, of
which the first `k` bytes came in. -/
def Basin.HandsUp (x : Basin) (data : Data) : Prop :=
  ∃ n ∈ expectedEuis, ∃ batch term index seq k fPort,
    .lorawanSend batch term index seq ∈ (x.fog.app n).coordinator.calls ∧
      data = objectOf ((wireBytes (payloadOf n batch term index seq)).take k) fPort

/-- An uplink that was handed over at some moment of a run to `x`. -/
def Deployment.Uplinked (D : Deployment) (x : Basin) (data : Data) : Prop :=
  ∃ y, D.basin.Reachable (BasinMeets D.Reads) y ∧ D.basin.Reaches (BasinMeets D.Reads) y x ∧ y.HandsUp data

section

variable {D : Deployment} {x : Basin}

/-- It says what a batch says that was filed, or nothing. -/
theorem handsUp_founded (h : D.basin.Reachable (BasinMeets D.Reads) x) {data : Data} (hdata : x.HandsUp data) :
    data = {} ∨ ∃ m, ∃ b : Batch, b.Founded (x.Received D m) ∧ data.alert = b.alertActive ∧
      ∀ e ∈ data.entries, ∃ y ∈ b.entries, e = .unmarshal (Lorawan.Entry.ofReading y).decoded := by
  obtain ⟨n, hn, batch, term, index, seq, k, fPort, hc, rfl⟩ := hdata
  obtain ⟨m, b, gap, hb, rfl⟩ := handed_filed h hn hc
  have hfounded := (sourced_reachable (h.mono fun y a hok => hok)).filed m b hb
  have hread : Batch.read (b.image gap) = b := Batch.read_image gap ⟨Nat.le_of_eq hfounded.three, hfounded.small⟩
  unfold payloadOf
  rw [hread]
  have hcount : (Lorawan.Payload.ofBatch (.ofNat n) b (.ofNat term) (.ofNat index) (.ofNat seq)).count.toNat ≤
      Lorawan.maxEntries := by
    show (UInt8.ofNat (min 3 b.entries.length)).toNat ≤ 3
    rw [hfounded.three]
    decide
  have halert : (Lorawan.Payload.ofBatch (.ofNat n) b (.ofNat term) (.ofNat index) (.ofNat seq)).alert = 0 ∨
      (Lorawan.Payload.ofBatch (.ofNat n) b (.ofNat term) (.ofNat index) (.ofNat seq)).alert = 1 := by
    show (if b.alertActive then (1 : UInt8) else 0) = 0 ∨ (if b.alertActive then (1 : UInt8) else 0) = 1
    cases b.alertActive with
    | true => exact .inr rfl
    | false => exact .inl rfl
  cases hd : (decodeUplink
      ⟨(wireBytes (.ofBatch (.ofNat n) b (.ofNat term) (.ofNat index) (.ofNat seq))).take k, fPort⟩).data with
  | none =>
    refine .inl ?_
    unfold objectOf
    rw [hd]
    rfl
  | some d =>
    obtain ⟨c, rfl⟩ := Lorawan.decode_take hcount halert k fPort hd
    unfold objectOf
    rw [hd]
    refine .inr ⟨m, b, hfounded, ?_, fun e he => ?_⟩
    · show decide ((if b.alertActive then (1 : UInt8) else 0) ≠ 0) = b.alertActive
      cases b.alertActive <;> rfl
    · obtain ⟨y, hy, rfl⟩ := List.mem_map.1 he
      obtain ⟨z, hz, rfl⟩ := Lorawan.mem_decoded hfounded.three hy
      exact ⟨z, hz, rfl⟩

/-- What was received by then is on record still. -/
theorem uplinked_founded {data : Data} (hdata : D.Uplinked x data) :
    data = {} ∨ ∃ m, ∃ b : Batch, b.Founded (x.Received D m) ∧ data.alert = b.alertActive ∧
      ∀ e ∈ data.entries, ∃ y ∈ b.entries, e = .unmarshal (Lorawan.Entry.ofReading y).decoded := by
  obtain ⟨y, hy, hruns, hup⟩ := hdata
  rcases handsUp_founded hy hup with hnone | ⟨m, b, hfounded, hrest⟩
  · exact .inl hnone
  · exact .inr ⟨m, b, hfounded.mono (fun e he => he.mono (heard_reaches hruns)), hrest⟩

end

/-- **What the gateway shows was signed by a sensor**: whatever uplinks come in that the fog nodes handed over in the run,
cut off anywhere or not, in any order and any number of times, an entry of the live store under an EUI has the level of a
reading that some node was sent in a datagram signed with the key of that EUI, and the lower 32 bits of the time it came
in at. -/
theorem live_readings_signed (D : Deployment) (x : Basin) (b : Bridge)
    (hb : b.live = some fun _ => none) (arrivals : List Arrival)
    (harrivals : ∀ a ∈ arrivals, ∀ cs, a.payload = some cs → D.Uplinked x cs.data) (live : String → Option SensorEntry)
    (hlive : (b.handleAll arrivals).live = some live) (s : String) (e : SensorEntry) (he : live s = some e) :
    ∃ m r, (m, r) ∈ x.heard ∧ r.Signed D m ∧ s = toString r.eui ∧ e.waterLevelMm.toNat = r.level ∧
      e.timestamp.toNat = r.timeUs % 2 ^ 32 := by
  rcases Bridge.live_handleAll arrivals hb hlive he with hnone | ⟨a, ha, u, hu, hmem, rfl⟩
  · cases hnone
  obtain ⟨cs, hcs, rfl⟩ := Option.map_eq_some_iff.1 hu
  have hmem : e ∈ cs.data.entries := hmem
  rcases uplinked_founded (harrivals a ha cs hcs) with hnone | ⟨m, batch, hfounded, -, hentries⟩
  · rw [hnone] at hmem
    cases hmem
  obtain ⟨y, hy, rfl⟩ := hentries e hmem
  obtain ⟨r, hr, hsigned, heui, hlevel, htime⟩ := founded_signed hfounded y hy
  have hsmall := (hfounded.small y hy).1
  refine ⟨m, r, hr, hsigned, congrArg toString heui, ?_, ?_⟩
  · show (Telemetry.flexUint ((UInt16.ofNat y.waterLevelMm).toNat : Int)).toNat = r.level
    rw [Telemetry.flexUint_of_lt (by have := (UInt16.ofNat y.waterLevelMm).toNat_lt; omega), UInt16.toNat_ofNat',
      Nat.mod_eq_of_lt hsmall, hlevel]
  · show (Telemetry.flexUint (y.timestamp.toUInt32.toNat : Int)).toNat = _
    rw [Telemetry.flexUint_of_lt (by have := y.timestamp.toUInt32.toNat_lt; omega), UInt64.toNat_toUInt32, htime,
      Nat.mod_mod]

/-- **No critical advisory because of one sensor alone**: whatever uplinks come in that the fog nodes handed over in the
run, the bridge submits a critical advisory only if some node was sent a good reading at or above the threshold and, from
another sensor, one no more than the tolerance below it, each in a datagram signed with the key of its sensor. -/
theorem critical_needs_two (D : Deployment) (x : Basin) (b : Bridge)
    (hb : b.advisories = []) (arrivals : List Arrival)
    (harrivals : ∀ a ∈ arrivals, ∀ cs, a.payload = some cs → D.Uplinked x cs.data) (adv : Gateway.Advisory)
    (hadv : adv ∈ (b.handleAll arrivals).advisories) (hcritical : Telemetry.severityCritical ≤ adv.severity) :
    ∃ m r r', (m, r) ∈ x.heard ∧ (m, r') ∈ x.heard ∧ r.Signed D m ∧ r'.Signed D m ∧ r.eui ≠ r'.eui ∧
      (entryOf r.reading).validity = .good ∧ 1500 ≤ r.level ∧ 1300 ≤ r'.level := by
  rcases Bridge.advisories_handleAll arrivals hadv with hold | ⟨a, ha, u, hu, hsev⟩
  · rw [hb] at hold
    cases hold
  obtain ⟨cs, hcs, rfl⟩ := Option.map_eq_some_iff.1 hu
  -- an advisory that is not critical has the severity of one that informs
  have hflag : cs.data.alert = true := by
    cases hflag : cs.data.alert with
    | true => rfl
    | false =>
      have hinfo : (cs.toUplink a.now).severity = Telemetry.severityInfo := by
        show (if cs.data.alert then _ else _) = _
        rw [hflag]
        rfl
      rw [hsev, hinfo] at hcritical
      exact absurd hcritical (by decide)
  rcases uplinked_founded (harrivals a ha cs hcs) with hnone | ⟨m, batch, hfounded, halert, -⟩
  · rw [hnone] at hflag
    cases hflag
  · exact ⟨m, founded_two hfounded (halert ▸ hflag)⟩

/-! ## A run written down -/

theorem turn_reads (x : Basin) (t : BasinTurn) (a : BasinAct) (h : x.turn t = some a)
    (hmeets : BasinMeets (openMesh.FogMeets (Nests engineSetup.TermsFit)) x a) : BasinMeets openMesh.Reads x a := by
  have hreads : ∀ act : FleetAction, openMesh.FogReads x.fog (.step act (fun _ => x.fog.hooksAt act)) := by
    intro act n hnode k i e hread
    unfold Fog.hooksAt at hread
    rw [hnode] at hread
    exact .inr (Option.filter_eq_some_iff.1 hread).1
  refine fun b hb => ⟨hmeets b hb, ?_⟩
  cases t with
  | fleet t =>
    obtain ⟨b', hb', h⟩ := Option.bind_eq_some_iff.1 h
    obtain ⟨act, hact, rfl⟩ := Option.map_eq_some_iff.1 hb'
    split at h
    · obtain rfl := Option.some.inj h
      obtain rfl := Option.some.inj hb
      exact hreads act
    · cases h
  | report n bytes timeUs =>
    unfold Basin.turn at h
    dsimp only at h
    split at h
    · obtain rfl := Option.some.inj h
      cases hb
    · cases h
  | serve n now act =>
    unfold Basin.turn at h
    dsimp only at h
    split at h
    · obtain rfl := Option.some.inj h
      obtain ⟨batch, hbatch, rfl⟩ := Option.map_eq_some_iff.1 hb
      rw [hbatch]
      exact hreads _
    · cases h

theorem reads_flooded : openMesh.basin.Reachable (BasinMeets openMesh.Reads) flooded :=
  reaches_playBasin (openMesh.FogMeets (Nests engineSetup.TermsFit)) turn_reads reportFlood _

/-- What the first node has handed over: the batch, with its term, index and seq. -/
def handed : List (List Byte × Nat × Nat × Nat) :=
  (flooded.fog.app 0xf4ce360a4eac3643).coordinator.calls.filterMap (fun c => match c with
    | .lorawanSend batch term index seq => some (batch, term, index, seq)
    | _ => none)

def firstHanded : List Byte × Nat × Nat × Nat := handed.headD ([], 0, 0, 0)

/-- The object of the first of these, of which `k` bytes came in. -/
def floodData (k : Nat) : Data :=
  let (batch, term, index, seq) := firstHanded
  objectOf ((wireBytes (payloadOf 0xf4ce360a4eac3643 batch term index seq)).take k) (some 1)

/-- The first node has lost power since. -/
def rebooted : Basin :=
  playBasin (openMesh.FogMeets (Nests engineSetup.TermsFit)) [.fleet (.boot 0xf4ce360a4eac3643 12000)] flooded

theorem handsUp_flood (k : Nat) : flooded.HandsUp (floodData k) := by
  have hmem : firstHanded ∈ handed := by
    cases hhanded : handed with
    | nil =>
      have hlen : handed.length = 1 := by decide +kernel
      rw [hhanded] at hlen
      cases hlen
    | cons p ps =>
      unfold firstHanded
      rw [hhanded]
      exact List.mem_cons_self
  obtain ⟨c, hc, hsome⟩ := List.mem_filterMap.1 hmem
  cases c with
  | submitEgress rec accepted => cases hsome
  | lorawanSend batch term index seq =>
    have heq : (batch, term, index, seq) = firstHanded := Option.some.inj hsome
    refine ⟨0xf4ce360a4eac3643, by decide, batch, term, index, seq, k, some 1, hc, ?_⟩
    unfold floodData
    rw [← heq]

theorem uplinked_flood (k : Nat) : openMesh.Uplinked rebooted (floodData k) :=
  ⟨flooded, reads_flooded, reaches_playBasin (openMesh.FogMeets (Nests engineSetup.TermsFit)) turn_reads _ _, handsUp_flood k⟩

/-- A gateway whose ring of one slot has another uplink. -/
def gateway : Bridge where
  hub := (Telemetry.Hub.new { historySize := 1 }).buffer { object := { seq := 5 } }
  live := some fun _ => none

/-- The uplink came in twice, the second time cut off in its header. -/
def floodArrivals : List Arrival := [70, 10].map (fun k => { payload := some { data := floodData k } })

theorem flood_arrivals : ∀ a ∈ floodArrivals, ∀ cs, a.payload = some cs → openMesh.Uplinked rebooted cs.data := by
  intro a ha cs hcs
  obtain ⟨k, -, rfl⟩ := List.mem_map.1 ha
  have heq : ({ data := floodData k } : Telemetry.ChirpstackUplink) = cs := Option.some.inj hcs
  rw [← heq]
  dsimp only
  exact uplinked_flood k

/-- The live store of that gateway has an entry for the first device, and it was signed for. -/
theorem live_readings_signed_flooded : ∃ live e, (gateway.handleAll floodArrivals).live = some live ∧
    live "17640096208354293315" = some e ∧ ∃ m r, (m, r) ∈ rebooted.heard ∧ r.Signed openMesh m ∧
      e.waterLevelMm.toNat = r.level := by
  have hsome : ((gateway.handleAll floodArrivals).live.bind (fun l => l "17640096208354293315")).isSome = true := by
    decide +kernel
  obtain ⟨e, he⟩ := Option.isSome_iff_exists.1 hsome
  obtain ⟨live, hlive, he⟩ := Option.bind_eq_some_iff.1 he
  obtain ⟨m, r, hr, hsigned, -, hlevel, -⟩ := live_readings_signed openMesh rebooted gateway rfl floodArrivals
    flood_arrivals live hlive _ e he
  exact ⟨live, e, hlive, he, m, r, hr, hsigned, hlevel⟩

/-- It submits a critical advisory, and two devices were heard. -/
theorem critical_needs_two_flooded : ∃ adv ∈ (gateway.handleAll floodArrivals).advisories, adv.severity = 4 ∧
    ∃ m r r', (m, r) ∈ rebooted.heard ∧ (m, r') ∈ rebooted.heard ∧ r.eui ≠ r'.eui ∧ 1500 ≤ r.level ∧ 1300 ≤ r'.level := by
  have hsome : (gateway.handleAll floodArrivals).advisories.any (fun adv => decide (adv.severity = 4)) = true := by
    decide +kernel
  obtain ⟨adv, hadv, hsev⟩ := List.any_eq_true.1 hsome
  have hsev := of_decide_eq_true hsev
  obtain ⟨m, r, r', hr, hr', -, -, hne, -, hhigh, hnear⟩ := critical_needs_two openMesh rebooted gateway rfl
    floodArrivals flood_arrivals adv hadv (Int.le_of_eq hsev.symm)
  exact ⟨adv, hadv, hsev, m, r, r', hr, hr', hne, hhigh, hnear⟩

end Raft
end FloodEws
