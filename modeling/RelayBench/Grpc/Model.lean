import RelayBench.Library.RemoteCall
import RelayBench.Common.Ports
import RelayBench.Common.Report

/-! # The gRPC chain of `grpc-bench/gbench/bench.cpp`

A service is called by the port it listens on. A call that is `replied` ended with
`Status::OK`, one that `failed` with another status. The field `failures` records the hops
whose stub call failed, `errors` counts the lines the client prints.
-/
namespace RelayBench.Grpc
open RemoteCall Ports

def kRelayPortStart : ℕ := 5000

/-- `port_` of the service with this id. -/
def port (id : ℕ) : ℕ := id + kRelayPortStart

structure Response where
  ack : ℤ
deriving DecidableEq, Repr

structure State where
  data : List ℤ
  reports : List Report
  failures : List ℕ
  errors : ℕ
deriving DecidableEq, Repr

def init : State := ⟨[],[],[],0⟩

/-- The copy `Relay::bench` sends on. -/
def relayCopy (id : ℕ) (request : Timing) : Timing :=
  { request with source := "relay " ++ toString (port id) }

/-- `Relay::bench`: whatever the status of the downstream call, the relay answers OK. -/
def relayBench (id : ℕ) (client : Call Timing State Response) : Call Timing State Response :=
  fun request s =>
    match client (relayCopy id request) s with
    | (t,.exited) => (t,.exited)
    | (t,.replied _) => (t,.replied ⟨request.msgid⟩)
    | (t,.failed) => ({ t with failures := t.failures ++ [id + 1] },.replied ⟨request.msgid⟩)

/-- `data_.insert`. -/
def insertSample (kNumRelays : ℕ) (now : ℤ) (request : Timing) (data : List ℤ) : List ℤ :=
  data ++ [nanosecPerHop kNumRelays now request.nanosec]

/-- `Sink::bench`: on the last sample the report is printed and the process ends. -/
def sinkBench (kNumRelays numMessages : ℕ) (now : ℤ) : Call Timing State Response :=
  fun request s =>
    let data := insertSample kNumRelays now request s.data
    if numMessages ≤ data.length then
      ({ s with data := data, reports := s.reports ++ (printStats data).toList },.exited)
    else ({ s with data := data },.replied ⟨request.msgid⟩)

/-- A call on the service that listens on this port, none of them having refused it. -/
def serve (kNumRelays numMessages : ℕ) (faults : ℕ → Fault) (now : ℤ) (p : ℕ) :
    Call Timing State Response :=
  match h : listening kRelayPortStart kNumRelays p with
  | none => fun _ s => (s,.failed)
  | some (.relay id) =>
    relayBench id (remote (faults (id + 1))
      (serve kNumRelays numMessages faults now (port id + 1)))
  | some .sink => sinkBench kNumRelays numMessages now
termination_by port kNumRelays - p
decreasing_by
  obtain ⟨hid,rfl⟩ := relay_of_listening h
  simp only [port]
  omega

/-- The call of `main`'s client, which prints a line unless the status is OK. -/
def clientBench (kNumRelays numMessages : ℕ) (faults : ℕ → Fault) (now : ℤ) :
    Call Timing State Response := fun request s =>
  match remote (faults 0) (serve kNumRelays numMessages faults now 5000) request s with
  | (t,.failed) => ({ t with failures := t.failures ++ [0], errors := t.errors + 1 },.failed)
  | r => r

end RelayBench.Grpc
