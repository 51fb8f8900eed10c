import RelayBench.Library.RemoteCall
import RelayBench.Common.Ports
import RelayBench.Common.Report

/-! # The Rust thrift chain of `thrift-rs/src/main.rs` and `timing.rs`

A handler that panics sends nothing and breaks its connection: it has `failed`. A panic
under a mutex poisons it. The field `pushed` records every latency the sink pushed.
-/
namespace RelayBench.ThriftRs
open RemoteCall Ports Function

def RELAY_PORT_START : ℕ := 5000

structure State where
  sequenceNumber : ℕ → ℤ
  clientPoisoned : ℕ → Bool
  latencyVec : List ℤ
  vecPoisoned : Bool
  reports : List Report
  pushed : List ℤ

def init : State where
  sequenceNumber _ := 0
  clientPoisoned _ := false
  latencyVec := []
  vecPoisoned := false
  reports := []
  pushed := []

/-! ## The generated client and processor -/

inductive TMessageType
  | call
  | reply
  | exception
  | oneWay
deriving DecidableEq, Repr

structure TMessageIdentifier where
  name : String
  messageType : TMessageType
  sequenceNumber : ℤ
deriving DecidableEq, Repr

structure CallMessage where
  ident : TMessageIdentifier
  arg : Timing
deriving DecidableEq, Repr

/-- An answer; its body is the result's `result_value` or the text of an exception. -/
structure ReplyMessage where
  ident : TMessageIdentifier
  result : Except String (Option ℤ)

/-- The client of hop `i`: what it reads is checked against what it sent. -/
def readReply (sequenceNumber : ℤ) (m : ReplyMessage) : Except String ℤ :=
  if m.ident.sequenceNumber ≠ sequenceNumber then .error "unexpected sequence number"
  else if m.ident.name ≠ "bench" then .error "unexpected service call"
  else if m.ident.messageType = .exception then
    match m.result with
    | .error text => .error text
    | .ok _ => .error "unreadable exception"
  else if m.ident.messageType ≠ .reply then .error "unexpected message type"
  else
    match m.result with
    | .ok (some v) => .ok v
    | .ok none => .error "no result received for BenchBench"
    | .error _ => .error "unreadable result"

def State.nextSequenceNumber (s : State) (hop : ℕ) : State :=
  { s with sequenceNumber := update s.sequenceNumber hop (asI32 (s.sequenceNumber hop + 1)) }

/-- `bench` of the client of a hop: `Ok` is replied, `Err` has failed. -/
def benchClient (hop : ℕ) (connection : Call CallMessage State ReplyMessage) :
    Call Timing State ℤ := fun arg s =>
  let s := s.nextSequenceNumber hop
  match connection ⟨⟨"bench",.call,s.sequenceNumber hop⟩,arg⟩ s with
  | (t,.exited) => (t,.exited)
  | (t,.failed) => (t,.failed)
  | (t,.replied m) =>
    match readReply (s.sequenceNumber hop) m with
    | .ok v => (t,.replied v)
    | .error _ => (t,.failed)

def processBench (handler : Call Timing State (Except String ℤ)) (sequenceNumber : ℤ) :
    Call Timing State ReplyMessage := fun arg s =>
  match handler arg s with
  | (t,.exited) => (t,.exited)
  | (t,.failed) => (t,.failed)
  | (t,.replied (.ok v)) => (t,.replied ⟨⟨"bench",.reply,sequenceNumber⟩,.ok (some v)⟩)
  | (t,.replied (.error text)) => (t,.replied ⟨⟨"bench",.exception,sequenceNumber⟩,.error text⟩)

/-- `BenchSyncProcessor::process`. -/
def process (handler : Call Timing State (Except String ℤ)) :
    Call CallMessage State ReplyMessage := fun m s =>
  if m.ident.name = "bench" then processBench handler m.ident.sequenceNumber m.arg s
  else (s,.replied ⟨⟨m.ident.name,.exception,m.ident.sequenceNumber⟩,
    .error ("unknown method " ++ m.ident.name)⟩)

/-! ## The handlers -/

def relayCopy (index : ℕ) (arg : Timing) : Timing :=
  { arg with source := "relay hop " ++ toString index }

/-- `RelayHandler::handle_bench`: both unwraps panic, the second under the mutex. -/
def relayBench (index : ℕ) (client : Call Timing State ℤ) :
    Call Timing State (Except String ℤ) := fun arg s =>
  if s.clientPoisoned index then (s,.failed)
  else
    match client (relayCopy index arg) s with
    | (t,.exited) => (t,.exited)
    | (t,.failed) => ({ t with clientPoisoned := update t.clientPoisoned index true },.failed)
    | (t,.replied _) => (t,.replied (.ok 0))

/-- The part of `SinkHandler::handle_bench` under the mutex: a full vector is sorted,
reported and cleared. -/
def pushLatency (numMessages : ℕ) : Call ℤ State (Except String ℤ) := fun v s =>
  if s.vecPoisoned then (s,.failed)
  else
    let vec := s.latencyVec ++ [v]
    let pushed := s.pushed ++ [v]
    if vec.length = numMessages then
      match printStats vec with
      | none => ({ s with latencyVec := vec, pushed := pushed, vecPoisoned := true },.failed)
      | some r =>
        ({ s with latencyVec := [], pushed := pushed, reports := s.reports ++ [r] },
          .replied (.ok 0))
    else ({ s with latencyVec := vec, pushed := pushed },.replied (.ok 0))

/-- `SinkHandler::handle_bench`, read at `elapsed` nanoseconds; the division may panic. -/
def sinkBench (numRelays numMessages : ℕ) (elapsed : ℕ) :
    Call Timing State (Except String ℤ) := fun arg s =>
  (latency numRelays (asI64 elapsed) arg.nanosec).elim (s,.failed)
    (fun v => pushLatency numMessages v s)

/-! ## The wiring and `main` -/

/-- The port of `create_client(index)` and of the server of this index. -/
def port (index : ℕ) : ℕ := index + RELAY_PORT_START

def serve (numRelays numMessages : ℕ) (faults : ℕ → Fault) (elapsed : ℕ) (p : ℕ) :
    Call CallMessage State ReplyMessage :=
  match h : listening RELAY_PORT_START numRelays p with
  | none => fun _ s => (s,.failed)
  | some (.relay index) =>
    process (relayBench index (benchClient (index + 1) (remote (faults (index + 1))
      (serve numRelays numMessages faults elapsed (port (index + 1))))))
  | some .sink => process (sinkBench numRelays numMessages elapsed)
termination_by port numRelays - p
decreasing_by
  obtain ⟨hid,rfl⟩ := relay_of_listening h
  simp only [port]
  omega

/-- The readings of the epoch's clock around one call, and what happens at the hops. -/
structure CallInput where
  sent : ℕ
  received : ℕ
  faults : ℕ → Fault

/-- The call of `main`'s client. -/
def clientBench (numRelays numMessages : ℕ) (input : CallInput) : Call Timing State ℤ :=
  benchClient 0 (remote (input.faults 0)
    (serve numRelays numMessages input.faults input.received (port 0)))

/-- The message of iteration `i`. -/
def mainTiming (i : ℕ) (input : CallInput) : Timing := ⟨i,asI64 input.sent,"client"⟩

/-- One iteration of `main`'s loop, none where the `unwrap` panics. -/
def mainIteration (numRelays numMessages : ℕ) (inputs : ℕ → CallInput) (s : State) (i : ℕ) :
    Option State :=
  match clientBench numRelays numMessages (inputs i) (mainTiming i (inputs i)) s with
  | (t,.replied _) => some t
  | _ => none

/-- The state in which `main` returns, none where it panics. -/
def main (numRelays numMessages : ℕ) (inputs : ℕ → CallInput) : Option State :=
  (List.range numMessages).foldlM (mainIteration numRelays numMessages inputs) init

end RelayBench.ThriftRs
