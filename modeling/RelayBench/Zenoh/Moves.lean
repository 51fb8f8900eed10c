import RelayBench.Library.LossyHops
import RelayBench.Zenoh.Model
import RelayBench.Zenoh.Transparency

/-! # What a step of the single-process bench can do

`Move` lists the steps of a state that satisfies the invariant: there nothing panics and
nothing is published without a subscriber. The topics are read as a chain of lossy hops.
-/
namespace RelayBench.Zenoh
open Execution LossyHops CompactProtocol Function
variable {T : ThriftCrate} {view : View T} {numRelays numMessages : ℕ} {s t : State}

/-! ## Hops -/

def RelayTask.hand : RelayTask → List Message
  | .forwarding _ m => [m]
  | _ => []

def SinkTask.hand : SinkTask → List Message
  | .handling m => [m]
  | _ => []

/-- What the receiver of topic `k` has taken and not yet handled. -/
def State.hand (numRelays : ℕ) (s : State) (k : ℕ) : List Message :=
  if k = numRelays then s.sink.hand else (s.relay k).hand

/-- What was published on topic `k`: the client's messages, then what the relay before it
has forwarded. -/
def State.sent (s : State) : ℕ → List Timing
  | 0 => s.published
  | k + 1 => s.handled k

def hop (numRelays : ℕ) (s : State) (k : ℕ) : Hop Timing where
  sent := s.sent k
  handled := s.handled k
  hand := (s.hand numRelays k).map Message.timing
  queue := (s.queue (topic k)).map Message.timing
  lost := s.lost k

/-- The message of this timing on topic `k`. -/
def message (k : ℕ) (t : Timing) : Message := ⟨wire t,t,List.range k⟩

def State.push (s : State) (k : ℕ) (m : Message) : State :=
  { s with queue := update s.queue (topic k) (s.queue (topic k) ++ [m]) }

theorem put_of_mem {k : ℕ} (h : topic k ∈ s.subscribers) (m : Message) :
    s.put (topic k) m = s.push k m := by
  rw [State.put, if_pos h]
  rfl

/-! ## Moves -/

/-- The steps of `main` that publish nothing. -/
inductive Setup (numRelays numMessages : ℕ) (s : State) : State → Prop
  | declareSubscriber (i : ℕ) (hmain : s.main = .declareSubscriber i) (hi : i < numRelays) :
      Setup numRelays numMessages s
        { s with subscribers := s.subscribers ++ [topic i], main := .declarePublisher i }
  | relaysReady (i : ℕ) (hmain : s.main = .declareSubscriber i) (hi : ¬ i < numRelays) :
      Setup numRelays numMessages s { s with main := .declareSinkSubscriber }
  | declarePublisher (i : ℕ) (hmain : s.main = .declarePublisher i) :
      Setup numRelays numMessages s { s with main := .spawnRelay i }
  | spawnRelay (i : ℕ) (hmain : s.main = .spawnRelay i) :
      Setup numRelays numMessages s
        { s with relay := update s.relay i (.receiving 0), main := .declareSubscriber (i + 1) }
  | declareSinkSubscriber (hmain : s.main = .declareSinkSubscriber) :
      Setup numRelays numMessages s
        { s with subscribers := s.subscribers ++ [topic numRelays], main := .spawnSink }
  | spawnSink (hmain : s.main = .spawnSink) :
      Setup numRelays numMessages s { s with sink := .receiving, main := .declareClientPublisher }
  | declareClientPublisher (hmain : s.main = .declareClientPublisher) :
      Setup numRelays numMessages s { s with main := .client 0 }
  | clientDone (i : ℕ) (hmain : s.main = .client i) (hi : ¬ i < numMessages) :
      Setup numRelays numMessages s { s with main := .sleep }
  | finish (hmain : s.main = .sleep) : Setup numRelays numMessages s { s with main := .returned }

/-- What the sink does with one more latency. -/
inductive Latency (numMessages : ℕ) (latencyVec : List ℤ) (reports : List Report) :
    SinkTask → List ℤ → List Report → Prop
  | sample (v : ℤ) (hlow : latencyVec.length + 1 ≠ numMessages) :
      Latency numMessages latencyVec reports .receiving (latencyVec ++ [v]) reports
  | report (r : Report) (hfull : latencyVec.length + 1 = numMessages)
      (hlength : r.array.length = numMessages) :
      Latency numMessages latencyVec reports .returned [] (reports ++ [r])

inductive Move (numRelays numMessages : ℕ) (s : State) : State → Prop
  | setup (t : State) (h : Setup numRelays numMessages s t) : Move numRelays numMessages s t
  | publish (i : ℕ) (m : Timing) (hm : Sendable PAYLOAD_SIZE m) (hmain : s.main = .client i)
      (hi : i < numMessages) :
      Move numRelays numMessages s
        { s.push 0 (message 0 m) with
          published := s.published ++ [m]
          main := .client (i + 1) }
  | recv (i count : ℕ) (m : Message) (rest : List Message)
      (hrelay : s.relay i = .receiving count) (hqueue : s.queue (topic i) = m :: rest) :
      Move numRelays numMessages s
        { s with
          queue := update s.queue (topic i) rest
          relay := update s.relay i (.forwarding count m) }
  | forward (i count : ℕ) (m : Timing) (hrelay : s.relay i = .forwarding count (message i m))
      (hm : Sendable PAYLOAD_SIZE m) :
      Move numRelays numMessages s
        { s.push (i + 1) (message (i + 1) m) with
          relay := update s.relay i
            (if count + 1 = numMessages then .returned else .receiving (count + 1))
          handled := update s.handled i (s.handled i ++ [m]) }
  | recvSink (m : Message) (rest : List Message) (hsink : s.sink = .receiving)
      (hqueue : s.queue (topic numRelays) = m :: rest) :
      Move numRelays numMessages s
        { s with
          queue := update s.queue (topic numRelays) rest
          sink := .handling m
          received := s.received ++ [m] }
  | handle (m : Message) (sink : SinkTask) (latencyVec : List ℤ) (reports : List Report)
      (hsink : s.sink = .handling m)
      (hlatency : Latency numMessages s.latencyVec s.reports sink latencyVec reports) :
      Move numRelays numMessages s
        { s with
          latencyVec := latencyVec
          reports := reports
          sink := sink
          handled := update s.handled numRelays (s.handled numRelays ++ [m.timing]) }
  | lose (i j : ℕ) (m : Message) (hm : (s.queue (topic i))[j]? = some m) :
      Move numRelays numMessages s
        { s with
          queue := update s.queue (topic i) ((s.queue (topic i)).eraseIdx j)
          lost := update s.lost i (s.lost i ++ [m.timing]) }

theorem Latency.running {latencyVec latencyVec' : List ℤ} {reports reports' : List Report}
    {sink : SinkTask} (h : Latency numMessages latencyVec reports sink latencyVec' reports') :
    sink ≠ .unspawned := by
  cases h <;> simp

theorem Latency.hand {latencyVec latencyVec' : List ℤ} {reports reports' : List Report}
    {sink : SinkTask} (h : Latency numMessages latencyVec reports sink latencyVec' reports') :
    sink.hand = [] := by
  cases h <;> rfl

/-! ## The invariant -/

/-- How many subscribers `main` has declared. -/
def MainPc.declared (numRelays : ℕ) : MainPc → ℕ
  | .declareSubscriber i => i
  | .declarePublisher i => i + 1
  | .spawnRelay i => i + 1
  | .declareSinkSubscriber => numRelays
  | _ => numRelays + 1

/-- How many relays `main` has spawned. -/
def MainPc.spawned (numRelays : ℕ) : MainPc → ℕ
  | .declareSubscriber i => i
  | .declarePublisher i => i
  | .spawnRelay i => i
  | _ => numRelays

def MainPc.SinkSpawned : MainPc → Prop
  | .declareClientPublisher => True
  | .client _ => True
  | .sleep => True
  | .returned => True
  | _ => False

/-- How many messages the client has published. -/
def MainPc.published (numMessages : ℕ) : MainPc → ℕ
  | .client i => i
  | .sleep => numMessages
  | .returned => numMessages
  | _ => 0

def MainPc.Valid (numRelays numMessages : ℕ) : MainPc → Prop
  | .declareSubscriber i => i ≤ numRelays
  | .declarePublisher i => i < numRelays
  | .spawnRelay i => i < numRelays
  | .client i => i ≤ numMessages
  | .panicked => False
  | _ => True

/-- What `main` has set up where it stands. -/
structure Wired (numRelays numMessages : ℕ) (main : MainPc) (s : State) : Prop where
  valid : main.Valid numRelays numMessages
  subscribers : s.subscribers = (List.range (main.declared numRelays)).map topic
  published : s.published.length = main.published numMessages
  relay : ∀ i, s.relay i = .unspawned ↔ main.spawned numRelays ≤ i
  sink : s.sink = .unspawned ↔ ¬ main.SinkSpawned

/-- A relay counts what it has forwarded and returns at the last message. -/
def RelayTask.Counts (numMessages : ℕ) (handled : List Timing) : RelayTask → Prop
  | .unspawned => handled = []
  | .receiving count => handled.length = count ∧ count < numMessages
  | .forwarding count _ => handled.length = count ∧ count < numMessages
  | .returned => handled.length = numMessages
  | .panicked => False

/-- The sink counts what it has handled, and reports and returns at the last message. -/
def SinkTask.Counts (numMessages : ℕ) (handled : List Timing) (latencyVec : List ℤ)
    (reports : List Report) : SinkTask → Prop
  | .unspawned => handled = [] ∧ latencyVec = [] ∧ reports = []
  | .receiving =>
    handled.length = latencyVec.length ∧ latencyVec.length < numMessages ∧ reports = []
  | .handling _ =>
    handled.length = latencyVec.length ∧ latencyVec.length < numMessages ∧ reports = []
  | .returned =>
    handled.length = numMessages ∧ ∃ r, reports = [r] ∧ r.array.length = numMessages
  | .panicked => False

/-- The message has passed the relays before topic `k` in order, its bytes unchanged. -/
structure Carries (k : ℕ) (m : Message) : Prop where
  eq : m = message k m.timing
  sendable : Sendable PAYLOAD_SIZE m.timing

/-- What is on topic `k` or in the hand of its receiver. -/
def cargo (numRelays : ℕ) (s : State) (k : ℕ) : List Message :=
  s.hand numRelays k ++ s.queue (topic k)

structure Inv (numRelays numMessages : ℕ) (s : State) : Prop where
  wired : Wired numRelays numMessages s.main s
  stray : s.stray = []
  kept : ∀ k ≤ numRelays, (hop numRelays s k).Kept
  carries : ∀ k ≤ numRelays, ∀ m ∈ cargo numRelays s k, Carries k m
  relay : ∀ i < numRelays, (s.relay i).Counts numMessages (s.handled i)
  sink : s.sink.Counts numMessages (s.handled numRelays) s.latencyVec s.reports
  received : s.received.map Message.timing = (hop numRelays s numRelays).handled ++
    (hop numRelays s numRelays).hand
  arrived : ∀ m ∈ s.received, Carries numRelays m

theorem Inv.chain (hinv : Inv numRelays numMessages s) : Chain (hop numRelays s) numRelays :=
  ⟨hinv.kept,fun _ _ => rfl⟩

variable {main : MainPc}

/-- Once the client has published, every subscriber is declared. -/
theorem Wired.declared (hw : Wired numRelays numMessages main s) (hp : s.published ≠ []) {k : ℕ}
    (hk : k ≤ numRelays) : topic k ∈ s.subscribers := by
  have hpos := List.length_pos_of_ne_nil hp
  rw [hw.published] at hpos
  have hall : main.declared numRelays = numRelays + 1 := by
    cases main <;> simp_all [MainPc.published, MainPc.declared]
  rw [hw.subscribers, hall]
  exact List.mem_map.mpr ⟨k,List.mem_range.mpr (by omega),rfl⟩

theorem Wired.spawned_le (hw : Wired numRelays numMessages main s) :
    main.spawned numRelays ≤ numRelays := by
  have hvalid := hw.valid
  cases main <;> simp_all [MainPc.Valid, MainPc.spawned, Nat.le_of_lt]

theorem Wired.relay_lt (hw : Wired numRelays numMessages main s) {i : ℕ}
    (h : s.relay i ≠ .unspawned) : i < numRelays := by
  have hspawned := hw.spawned_le
  have := mt (hw.relay i).mpr h
  omega

/-- A message is on the way only behind the client. -/
theorem Inv.published_ne_nil (hinv : Inv numRelays numMessages s) {k : ℕ} (hk : k ≤ numRelays)
    (hp : (hop numRelays s k).pending ≠ []) : s.published ≠ [] := by
  have hsent := (hinv.kept k hk).sent_ne_nil hp
  intro hnil
  have hsub := hinv.chain.sent_sublist hk
  have h0 : (hop numRelays s 0).sent = [] := hnil
  rw [h0, List.sublist_nil] at hsub
  exact hsent hsub

/-! ## Steps are moves -/

theorem sendable_asI64 {payloadSize : ℕ} (hsize : payloadSize < 2 ^ 32) (msgid nanosec : ℤ) :
    Sendable payloadSize ⟨asI64 msgid,asI64 nanosec,clientSource payloadSize⟩ :=
  ⟨hsize,asI64_inI64 msgid,asI64_inI64 nanosec,clientSource_length payloadSize⟩

theorem clientTiming_sendable (i elapsed : ℕ) : Sendable PAYLOAD_SIZE (clientTiming i elapsed) :=
  sendable_asI64 (by norm_num [PAYLOAD_SIZE]) i elapsed

theorem mainStep_move (hdoc : Documented T view) (hinv : Inv numRelays numMessages s)
    {elapsed : ℕ} (h : mainStep T numRelays numMessages elapsed s = some t) :
    Move numRelays numMessages s t := by
  unfold mainStep at h
  cases hmain : s.main with
  | declareSubscriber i =>
    simp only [hmain] at h
    by_cases hi : i < numRelays
    · rw [if_pos hi, Option.some.injEq] at h
      exact h ▸ .setup _ (.declareSubscriber i hmain hi)
    · rw [if_neg hi, Option.some.injEq] at h
      exact h ▸ .setup _ (.relaysReady i hmain hi)
  | declarePublisher i =>
    simp only [hmain, Option.some.injEq] at h
    exact h ▸ .setup _ (.declarePublisher i hmain)
  | spawnRelay i =>
    simp only [hmain, Option.some.injEq] at h
    exact h ▸ .setup _ (.spawnRelay i hmain)
  | declareSinkSubscriber =>
    simp only [hmain, Option.some.injEq] at h
    exact h ▸ .setup _ (.declareSinkSubscriber hmain)
  | spawnSink =>
    simp only [hmain, Option.some.injEq] at h
    exact h ▸ .setup _ (.spawnSink hmain)
  | declareClientPublisher =>
    simp only [hmain, Option.some.injEq] at h
    exact h ▸ .setup _ (.declareClientPublisher hmain)
  | client i =>
    simp only [hmain] at h
    by_cases hi : i < numMessages
    · have hm := clientTiming_sendable i elapsed
      have hsub : topic 0 ∈ s.subscribers := by
        rw [hinv.wired.subscribers, hmain]
        exact List.mem_map.mpr ⟨0,List.mem_range.mpr (Nat.succ_pos _),rfl⟩
      simp only [if_pos hi, clientPayload_wire hdoc hm, put_of_mem hsub, Option.some.injEq] at h
      exact h ▸ .publish i _ hm hmain hi
    · rw [if_neg hi, Option.some.injEq] at h
      exact h ▸ .setup _ (.clientDone i hmain hi)
  | sleep =>
    simp only [hmain, Option.some.injEq] at h
    exact h ▸ .setup _ (.finish hmain)
  | returned => simp [hmain] at h
  | panicked => simp [hmain] at h

/-- The sink reads the message in its hand, and its division does not panic. -/
theorem handle_move (hdoc : Documented T view) (hN : numRelays < 2 ^ 31)
    (hinv : Inv numRelays numMessages s) {elapsed : ℕ} {m : Message}
    (hsink : s.sink = .handling m)
    (h : step T numRelays numMessages s (.handle elapsed) = some t) :
    Move numRelays numMessages s t := by
  have hcargo : m ∈ cargo numRelays s numRelays := by
    simp [cargo, State.hand, hsink, SinkTask.hand]
  obtain ⟨hm,hsendable⟩ := hinv.carries numRelays le_rfl m hcargo
  have hread : sinkTiming T PAYLOAD_SIZE m.payload = some m.timing := by
    rw [hm]
    exact sinkTiming_wire hdoc hsendable
  obtain ⟨v,hv⟩ := latency_isSome hN (asI64 elapsed) m.timing.nanosec
  simp only [step, hsink, hread, State.handle, hv, Option.elim_some, State.pushLatency] at h
  by_cases hfull : (s.latencyVec ++ [v]).length = numMessages
  · obtain ⟨r,hr,hperm⟩ := printStats_of_ne_nil (List.append_ne_nil_of_right_ne_nil s.latencyVec
      (List.cons_ne_nil v []))
    have hlength := hperm.length_eq
    simp only [if_pos hfull, hr, Option.some.injEq] at h
    exact h ▸ .handle m _ _ _ hsink (.report r (by simpa using hfull) (hlength.trans hfull))
  · simp only [if_neg hfull, Option.some.injEq] at h
    exact h ▸ .handle m _ _ _ hsink (.sample v (by simpa using hfull))

theorem forward_move (hdoc : Documented T view) (hinv : Inv numRelays numMessages s)
    {i count : ℕ} {m : Message} (hrelay : s.relay i = .forwarding count m)
    (h : step T numRelays numMessages s (.forward i) = some t) :
    Move numRelays numMessages s t := by
  have hi : i < numRelays := hinv.wired.relay_lt (by simp [hrelay])
  have hcargo : m ∈ cargo numRelays s i := by
    simp [cargo, State.hand, hi.ne, hrelay, RelayTask.hand]
  obtain ⟨hm,hsendable⟩ := hinv.carries i hi.le m hcargo
  have hread : relayPayload T PAYLOAD_SIZE m.payload = some (wire m.timing) := by
    rw [hm]
    exact relayPayload_wire hdoc hsendable
  have hpublished : s.published ≠ [] := by
    apply hinv.published_ne_nil hi.le
    simp [hop, Hop.pending, State.hand, hi.ne, hrelay, RelayTask.hand]
  have hnext : (⟨wire m.timing,m.timing,m.path ++ [i]⟩ : Message) = message (i + 1) m.timing := by
    rw [hm]
    simp [message, List.range_succ]
  simp only [step, hrelay, hread, put_of_mem (hinv.wired.declared hpublished hi), hnext,
    Option.some.injEq] at h
  exact h ▸ .forward i count m.timing (hm ▸ hrelay) hsendable

theorem step_move (hdoc : Documented T view) (hN : numRelays < 2 ^ 31)
    (hinv : Inv numRelays numMessages s) {l : Label}
    (h : step T numRelays numMessages s l = some t) : Move numRelays numMessages s t := by
  cases l with
  | main elapsed => exact mainStep_move hdoc hinv h
  | recv i =>
    cases hrelay : s.relay i with
    | receiving count =>
      cases hqueue : s.queue (topic i) with
      | nil => simp [step, hrelay, hqueue] at h
      | cons m rest =>
        simp only [step, hrelay, hqueue, Option.some.injEq] at h
        exact h ▸ .recv i count m rest hrelay hqueue
    | _ => simp [step, hrelay] at h
  | forward i =>
    cases hrelay : s.relay i with
    | forwarding count m => exact forward_move hdoc hinv hrelay h
    | _ => simp [step, hrelay] at h
  | recvSink =>
    cases hsink : s.sink with
    | receiving =>
      cases hqueue : s.queue (topic numRelays) with
      | nil => simp [step, hsink, hqueue] at h
      | cons m rest =>
        simp only [step, hsink, hqueue, Option.some.injEq] at h
        exact h ▸ .recvSink m rest hsink hqueue
    | _ => simp [step, hsink] at h
  | handle elapsed =>
    cases hsink : s.sink with
    | handling m => exact handle_move hdoc hN hinv hsink h
    | _ => simp [step, hsink] at h
  | lose i j =>
    cases hm : (s.queue (topic i))[j]? with
    | none => simp [step, hm] at h
    | some m =>
      simp only [step, hm, Option.some.injEq] at h
      exact h ▸ .lose i j m hm

end RelayBench.Zenoh
