import RelayBench.Library.CompactProtocol
import RelayBench.Library.RemoteCall
import RelayBench.ThriftCpp.StructReading

/-! # `BenchClient` and `BenchProcessor` of `gen-cpp/Bench.cpp` over a connection

A client sends the bytes of a call, the server behind the connection reads them, runs the
handler and sends the bytes of an answer, from which the client takes what it returns or throws.
An exception of the library ends the connection: the call has `failed`.
-/
namespace RelayBench.ThriftWire
open Readers BinaryProtocol RemoteCall
variable {S : Type}

/-! ## The generated code -/

def benchName : List UInt8 := CompactProtocol.utf8 "bench"

/-! The types of an application exception that are thrown. -/

def UNKNOWN : ℤ := 0

def UNKNOWN_METHOD : ℤ := 1

def MISSING_RESULT : ℤ := 5

section Generated
variable (T : TProtocol)

/-- A whole message, up to the flush. -/
def sendMessage (header : MessageHeader) (body : Reader T.Out Unit) :
    Reader T.Out (List UInt8) := do
  T.writeMessageBegin header
  body
  T.writeMessageEnd
  T.writeEnd
  T.flush

/-- The end of a message that was read or skipped. -/
def endMessage : Reader T.In Unit := do
  T.readMessageEnd
  T.readEnd

/-- `BenchClient::send_bench`. -/
def sendBench (arg : WireTiming) : Reader T.Out (List UInt8) :=
  sendMessage T ⟨benchName,.call,0⟩ (benchPargsWrite T arg)

/-- The body of an unexpected message is skipped, and nothing is thrown. -/
def skipUnexpected (unexpected : Bool) : Reader T.In Unit :=
  if unexpected then do
    T.skip .struct
    endMessage T
  else pure ()

def recvException : Reader T.In (Except TApplicationException ℤ) := do
  let x ← T.readException
  endMessage T
  return .error x

def recvResult (fuel : ℕ) : Reader T.In (Except TApplicationException ℤ) := do
  let result ← benchResultRead T fuel .new
  endMessage T
  return if result.issetSuccess then .ok result.success
    else .error ⟨MISSING_RESULT,CompactProtocol.utf8 "bench failed: unknown result"⟩

/-- `BenchClient::recv_bench`. -/
def recvBench (fuel : ℕ) : Reader T.In (Except TApplicationException ℤ) := do
  let header ← T.readMessageBegin
  if header.type = .exception then recvException T
  else do
    skipUnexpected T (header.type ≠ .reply)
    skipUnexpected T (header.name ≠ benchName)
    recvResult T fuel

/-- A server at its end of a connection, and what its handler works on. -/
structure Server (S : Type) where
  input : T.In
  output : T.Out
  memory : S

/-- A message is sent, unless writing it throws. -/
def Server.send (s : Server T S) (message : Reader T.Out (List UInt8)) :
    Server T S × Reply (List UInt8) :=
  match message.run s.output with
  | none => (s,.failed)
  | some (bytes,output) => ({ s with output := output },.replied bytes)

def readArgs (fuel : ℕ) : Reader T.In WireTiming := do
  let args ← benchArgsRead T fuel .new
  endMessage T
  return args.arg

def sendResult (seqid ack : ℤ) : Reader T.Out (List UInt8) :=
  sendMessage T ⟨benchName,.reply,seqid⟩ (benchResultWrite T ⟨ack,true⟩)

def sendException (fname : List UInt8) (seqid : ℤ) (x : TApplicationException) :
    Reader T.Out (List UInt8) :=
  sendMessage T ⟨fname,.exception,seqid⟩ (T.writeException x)

/-- A handler returns an `ack`, throws a `std::exception` with this `what()`, ends the process
or breaks the connection. -/
abbrev Handler (S : Type) := Call WireTiming S (Except (List UInt8) ℤ)

/-- `process_bench` once the handler is done. -/
def answer (seqid : ℤ) (input : T.In) (output : T.Out) :
    S × Reply (Except (List UInt8) ℤ) → Server T S × Reply (List UInt8)
  | (memory,.exited) => (⟨input,output,memory⟩,.exited)
  | (memory,.failed) => (⟨input,output,memory⟩,.failed)
  | (memory,.replied (.ok ack)) =>
    Server.send T ⟨input,output,memory⟩ (sendResult T seqid ack)
  | (memory,.replied (.error what)) =>
    Server.send T ⟨input,output,memory⟩ (sendException T benchName seqid ⟨UNKNOWN,what⟩)

/-- `BenchProcessor::process_bench`. -/
def processBench (fuel : ℕ) (iface : Handler S) (seqid : ℤ) (s : Server T S) :
    Server T S × Reply (List UInt8) :=
  match (readArgs T fuel).run s.input with
  | none => (s,.failed)
  | some (arg,input) => answer T seqid input s.output (iface arg s.memory)

def unknownMethod (fname : List UInt8) : TApplicationException :=
  ⟨UNKNOWN_METHOD,CompactProtocol.utf8 "Invalid method name: '" ++ fname ++ CompactProtocol.utf8 "'"⟩

/-- `BenchProcessor::dispatchCall`. -/
def dispatchCall (fuel : ℕ) (iface : Handler S) (header : MessageHeader) (s : Server T S) :
    Server T S × Reply (List UInt8) :=
  if header.name = benchName then processBench T fuel iface header.seqid s
  else
    match (skipUnexpected T true).run s.input with
    | none => (s,.failed)
    | some ((),input) =>
      Server.send T { s with input := input }
        (sendException T header.name header.seqid (unknownMethod header.name))

/-- The library's `TDispatchProcessor::process`, as documented: a message that is no call ends
the connection. -/
def process (fuel : ℕ) (iface : Handler S) (s : Server T S) : Server T S × Reply (List UInt8) :=
  match T.readMessageBegin.run s.input with
  | none => (s,.failed)
  | some (header,input) =>
    if header.type = .call ∨ header.type = .oneway then
      dispatchCall T fuel iface header { s with input := input }
    else ({ s with input := input },.failed)

/-- Both ends of a connection. -/
structure Connection where
  clientIn : T.In
  clientOut : T.Out
  serverIn : T.In
  serverOut : T.Out

/-- `BenchClient::bench` with the server at the other end. -/
def bench (fuel : ℕ) (iface : Handler S) (arg : WireTiming) (s : Connection T × S) :
    (Connection T × S) × Reply (Except TApplicationException ℤ) :=
  match (sendBench T arg).run s.1.clientOut with
  | none => (s,.failed)
  | some (request,clientOut) =>
    match process T fuel iface ⟨T.receive request s.1.serverIn,s.1.serverOut,s.2⟩ with
    | (t,.exited) => ((⟨s.1.clientIn,clientOut,t.input,t.output⟩,t.memory),.exited)
    | (t,.failed) => ((⟨s.1.clientIn,clientOut,t.input,t.output⟩,t.memory),.failed)
    | (t,.replied answer) =>
      match (recvBench T fuel).run (T.receive answer s.1.clientIn) with
      | none => ((⟨s.1.clientIn,clientOut,t.input,t.output⟩,t.memory),.failed)
      | some (outcome,clientIn) =>
        ((⟨clientIn,clientOut,t.input,t.output⟩,t.memory),.replied outcome)

/-- Calls one after the other, up to one that ends the connection or the process. -/
def benchAll (fuel : ℕ) (iface : Handler S) : Connection T × S → List WireTiming →
    (Connection T × S) × List (Reply (Except TApplicationException ℤ))
  | s, [] => (s,[])
  | s, arg :: args =>
    match bench T fuel iface arg s with
    | (t,.replied r) => ((benchAll fuel iface t args).1,.replied r :: (benchAll fuel iface t args).2)
    | (t,r) => (t,[r])

end Generated

end RelayBench.ThriftWire
