import RelayBench.Library.Execution
import RelayBench.Common.Report
import RelayBench.Zenoh.Wire

/-! # The single-process bench of `zenohbench/src/main.rs`

`main` declares and spawns, then runs the client's loop; the relays and the sink are tasks of
their own. A topic is a queue to its declared subscriber, from which messages may be lost.
A message carries its payload; its `timing` and `path` only record what the client built and
which relays it has passed, as do `published`, `handled`, `received`, `lost` and `stray`,
the topics published on without a subscriber.
-/
namespace RelayBench.Zenoh
open Execution Function

def PAYLOAD_SIZE : ℕ := 10000000

structure Message where
  payload : List UInt8
  timing : Timing
  path : List ℕ
deriving DecidableEq

/-- `bench/hop{i}`. -/
def topic (i : ℕ) : String := "bench/hop" ++ toString i

/-- What `main` does next. -/
inductive MainPc
  | declareSubscriber (i : ℕ)
  | declarePublisher (i : ℕ)
  | spawnRelay (i : ℕ)
  | declareSinkSubscriber
  | spawnSink
  | declareClientPublisher
  | client (i : ℕ)
  | sleep
  | returned
  | panicked
deriving DecidableEq, Repr

inductive RelayTask
  | unspawned
  | receiving (messageCount : ℕ)
  | forwarding (messageCount : ℕ) (m : Message)
  | returned
  | panicked
deriving DecidableEq

inductive SinkTask
  | unspawned
  | receiving
  | handling (m : Message)
  | returned
  | panicked
deriving DecidableEq

structure State where
  main : MainPc
  subscribers : List String
  queue : String → List Message
  relay : ℕ → RelayTask
  sink : SinkTask
  latencyVec : List ℤ
  reports : List Report
  published : List Timing
  handled : ℕ → List Timing
  received : List Message
  lost : ℕ → List Timing
  stray : List String

def init : State where
  main := .declareSubscriber 0
  subscribers := []
  queue _ := []
  relay _ := .unspawned
  sink := .unspawned
  latencyVec := []
  reports := []
  published := []
  handled _ := []
  received := []
  lost _ := []
  stray := []

inductive Label
  | main (elapsed : ℕ)
  | recv (relay : ℕ)
  | forward (relay : ℕ)
  | recvSink
  | handle (elapsed : ℕ)
  | lose (hop position : ℕ)
deriving DecidableEq, Repr

/-- The steps of the tasks; a loss is none of them. -/
def Label.IsTask : Label → Prop
  | .lose _ _ => False
  | _ => True

/-- `publisher.put`. -/
def State.put (s : State) (topic : String) (m : Message) : State :=
  if topic ∈ s.subscribers then { s with queue := update s.queue topic (s.queue topic ++ [m]) }
  else { s with stray := s.stray ++ [topic] }

/-- The message of iteration `i` of `client_loop`. -/
def clientTiming (i elapsed : ℕ) : Timing := ⟨asI64 i,asI64 elapsed,clientSource PAYLOAD_SIZE⟩

/-- `main` and `client_loop`. -/
def mainStep (T : ThriftCrate) (numRelays numMessages elapsed : ℕ) (s : State) : Option State :=
  match s.main with
  | .declareSubscriber i =>
    if i < numRelays then
      some { s with subscribers := s.subscribers ++ [topic i], main := .declarePublisher i }
    else some { s with main := .declareSinkSubscriber }
  | .declarePublisher i => some { s with main := .spawnRelay i }
  | .spawnRelay i =>
    some { s with relay := update s.relay i (.receiving 0), main := .declareSubscriber (i + 1) }
  | .declareSinkSubscriber =>
    some { s with subscribers := s.subscribers ++ [topic numRelays], main := .spawnSink }
  | .spawnSink => some { s with sink := .receiving, main := .declareClientPublisher }
  | .declareClientPublisher => some { s with main := .client 0 }
  | .client i =>
    if i < numMessages then
      match clientPayload T PAYLOAD_SIZE (clientTiming i elapsed) with
      | none => some { s with main := .panicked }
      | some payload =>
        some { s.put (topic 0) ⟨payload,clientTiming i elapsed,[]⟩ with
          published := s.published ++ [clientTiming i elapsed]
          main := .client (i + 1) }
    else some { s with main := .sleep }
  | .sleep => some { s with main := .returned }
  | .returned => none
  | .panicked => none

/-- The sink pushes a latency; a full vector is sorted, reported and cleared. -/
def State.pushLatency (numMessages : ℕ) (v : ℤ) (s : State) : State :=
  let vec := s.latencyVec ++ [v]
  if vec.length = numMessages then
    match printStats vec with
    | none => { s with latencyVec := vec, sink := .panicked }
    | some r => { s with latencyVec := [], reports := s.reports ++ [r], sink := .returned }
  else { s with latencyVec := vec, sink := .receiving }

/-- `sink_loop` on one message it has read; the division may panic. -/
def State.handle (numRelays numMessages elapsed : ℕ) (t : Timing) (s : State) : State :=
  (latency numRelays (asI64 elapsed) t.nanosec).elim { s with sink := .panicked }
    (fun v => s.pushLatency numMessages v)

def step (T : ThriftCrate) (numRelays numMessages : ℕ) (s : State) : Label → Option State
  | .main elapsed => mainStep T numRelays numMessages elapsed s
  | .recv i =>
    match s.relay i, s.queue (topic i) with
    | .receiving count, m :: rest => some { s with
        queue := update s.queue (topic i) rest
        relay := update s.relay i (.forwarding count m) }
    | _, _ => none
  | .forward i =>
    match s.relay i with
    | .forwarding count m =>
      match relayPayload T PAYLOAD_SIZE m.payload with
      | none => some { s with relay := update s.relay i .panicked }
      | some payload =>
        let count := count + 1
        some { s.put (topic (i + 1)) ⟨payload,m.timing,m.path ++ [i]⟩ with
          relay := update s.relay i (if count = numMessages then .returned else .receiving count)
          handled := update s.handled i (s.handled i ++ [m.timing]) }
    | _ => none
  | .recvSink =>
    match s.sink, s.queue (topic numRelays) with
    | .receiving, m :: rest => some { s with
        queue := update s.queue (topic numRelays) rest
        sink := .handling m
        received := s.received ++ [m] }
    | _, _ => none
  | .handle elapsed =>
    match s.sink with
    | .handling m =>
      match sinkTiming T PAYLOAD_SIZE m.payload with
      | none => some { s with sink := .panicked }
      | some t => some { s.handle numRelays numMessages elapsed t with
          handled := update s.handled numRelays (s.handled numRelays ++ [m.timing]) }
    | _ => none
  | .lose i j =>
    match (s.queue (topic i))[j]? with
    | none => none
    | some m => some { s with
        queue := update s.queue (topic i) ((s.queue (topic i)).eraseIdx j)
        lost := update s.lost i (s.lost i ++ [m.timing]) }

theorem topic_injective : Injective topic := by
  intro i j h
  have hs : toString i = toString j := by simpa [topic] using h
  exact Nat.repr_inj.mp hs

@[simp] theorem topic_inj {i j : ℕ} : topic i = topic j ↔ i = j := topic_injective.eq_iff

end RelayBench.Zenoh
