import RelayBench.Library.RemoteCall
import RelayBench.Common.Ports
import RelayBench.Common.Report

/-! # The C++ thrift chain of `thrift-bench/bench.cpp` and `gen-cpp/Bench.cpp`

A handler that throws has `failed`; its processor answers the caller with an exception
message. The fields `visits` and `throws` record the handlers entered and the hops whose
`BenchClient::bench` threw.
-/
namespace RelayBench.ThriftCpp
open RemoteCall Ports

def kRelayPortStart : ℕ := 5000

structure State where
  data : List ℤ
  reports : List Report
  exited : Bool
  visits : List Server
  throws : List ℕ
deriving DecidableEq, Repr

def init : State := ⟨[],[],false,[],[]⟩

/-! ## The generated client and processor -/

inductive TMessageType
  | call
  | reply
  | exception
  | oneway
deriving DecidableEq, Repr

structure CallMessage where
  fname : String
  mtype : TMessageType
  seqid : ℤ
  arg : Timing
deriving DecidableEq, Repr

/-- The answer to a call; its body is a result whose `success` may be unset. -/
structure ReplyMessage where
  fname : String
  mtype : TMessageType
  seqid : ℤ
  success : Option ℤ
deriving DecidableEq, Repr

def sendBench (arg : Timing) : CallMessage := ⟨"bench",.call,0,arg⟩

/-- None where it throws; a body that was skipped leaves nothing to read. -/
def recvBench (m : ReplyMessage) : Option ℤ :=
  if m.mtype = .exception then none
  else if m.mtype ≠ .reply ∨ m.fname ≠ "bench" then none
  else m.success

/-- `BenchClient::bench` over a connection. -/
def benchClient (connection : Call Timing State ReplyMessage) : Call Timing State ℤ :=
  fun arg s =>
    match connection arg s with
    | (t,.exited) => (t,.exited)
    | (t,.failed) => (t,.failed)
    | (t,.replied m) =>
      match recvBench m with
      | some ack => (t,.replied ack)
      | none => (t,.failed)

def processBench (handler : Call Timing State ℤ) (seqid : ℤ) : Call Timing State ReplyMessage :=
  fun arg s =>
    match handler arg s with
    | (t,.exited) => (t,.exited)
    | (t,.failed) => (t,.replied ⟨"bench",.exception,seqid,none⟩)
    | (t,.replied ack) => (t,.replied ⟨"bench",.reply,seqid,some ack⟩)

def dispatchCall (handler : Call Timing State ℤ) : Call CallMessage State ReplyMessage :=
  fun m s =>
    if m.fname = "bench" then processBench handler m.seqid m.arg s
    else (s,.replied ⟨m.fname,.exception,m.seqid,none⟩)

/-- A server answers what `send_bench` has sent. -/
def processor (handler : Call Timing State ℤ) : Call Timing State ReplyMessage :=
  fun arg => dispatchCall handler (sendBench arg)

/-! ## The handlers -/

/-- The port of `RelayClient(id)` and of `BenchServer(id, _)`. -/
def port (id : ℕ) : ℕ := id + kRelayPortStart

def relayCopy (id : ℕ) (arg : Timing) : Timing := ⟨arg.msgid,arg.nanosec,"relay " ++ toString id⟩

def State.enter (s : State) (server : Server) : State := { s with visits := s.visits ++ [server] }

/-- What `BenchClient::bench` throws at a hop is recorded and thrown on. -/
def noteThrow (hop : ℕ) (client : Call Timing State ℤ) : Call Timing State ℤ := fun arg s =>
  match client arg s with
  | (t,.failed) => ({ t with throws := t.throws ++ [hop] },.failed)
  | r => r

/-- `RelayHandler::bench`, which catches nothing. -/
def relayBench (id : ℕ) (client : Call Timing State ℤ) : Call Timing State ℤ := fun arg s =>
  noteThrow (id + 1) client (relayCopy id arg) (s.enter (.relay id))

/-- `SinkHandler::bench`: on the last sample the report is printed and the process ends. -/
def sinkBench (kNumRelays numMessages : ℕ) (now : ℤ) : Call Timing State ℤ := fun arg s =>
  let s := s.enter .sink
  let data := s.data ++ [nanosecPerHop kNumRelays now arg.nanosec]
  if numMessages ≤ data.length then
    ({ s with
      data := data
      reports := s.reports ++ (printStats data).toList
      exited := true },.exited)
  else ({ s with data := data },.replied arg.msgid)

/-! ## The wiring and the client -/

/-- The server that listens on this port. -/
def serve (kNumRelays numMessages : ℕ) (faults : ℕ → Fault) (now : ℤ) (p : ℕ) :
    Call Timing State ReplyMessage :=
  match h : listening kRelayPortStart kNumRelays p with
  | none => fun _ s => (s,.failed)
  | some (.relay id) =>
    processor (relayBench id (benchClient (remote (faults (id + 1))
      (serve kNumRelays numMessages faults now (port (id + 1))))))
  | some .sink => processor (sinkBench kNumRelays numMessages now)
termination_by port kNumRelays - p
decreasing_by
  obtain ⟨hid,rfl⟩ := relay_of_listening h
  simp only [port]
  omega

/-- A call of `main`'s client, with the sink's clock and what happens at the hops. -/
structure ClientCall where
  msg : Timing
  now : ℤ
  faults : ℕ → Fault

/-- Nothing runs once the process has ended. -/
def clientBench (kNumRelays numMessages : ℕ) (c : ClientCall) (s : State) : State × Reply ℤ :=
  if s.exited then (s,.exited)
  else noteThrow 0 (benchClient (remote (c.faults 0)
    (serve kNumRelays numMessages c.faults c.now (port 0)))) c.msg s

/-- The state after a sequence of calls. -/
def runCalls (kNumRelays numMessages : ℕ) : State → List ClientCall → State
  | s, [] => s
  | s, c :: cs => runCalls kNumRelays numMessages (clientBench kNumRelays numMessages c s).1 cs

end RelayBench.ThriftCpp
