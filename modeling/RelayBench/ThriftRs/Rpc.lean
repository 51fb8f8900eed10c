import RelayBench.Library.RemoteCall
import RelayBench.ThriftRs.StructReading

/-! # `BenchSyncClient` and `BenchSyncProcessor` of `thrift-rs/src/timing.rs` over a connection

What stops the processor before its handler runs becomes an exception to the caller, and the server
goes on behind whatever was read. A panic of the handler, and an error in reading the header of a
message or in writing, ends the connection: the call has `failed`.
-/
namespace RelayBench.ThriftRsWire
open Readers CompactMessages RemoteCall
variable {S : Type}

/-- What a client's `bench` returns instead of a value, where it has read an answer. -/
inductive ClientError
  | application (e : ApplicationError)
  /-- An answer that was not expected, with a text of the crate. -/
  | unexpected (kind : ApplicationErrorKind)
deriving DecidableEq, Repr

/-- `BenchBenchResult::ok_or`. -/
def okOr : Option ℤ → Except ClientError ℤ
  | some v => .ok v
  | none => .error (.application ⟨.missingResult,"no result received for BenchBench"⟩)

/-- What a handler returns instead of a value; the text of an error that is no application error
is sent. -/
inductive HandlerError
  | application (e : ApplicationError)
  | other (text : String)
deriving DecidableEq, Repr

def HandlerError.sent : HandlerError → ApplicationError
  | .application e => e
  | .other text => ⟨.unknown,text⟩

/-- A handler returns, or breaks the connection by a panic. -/
abbrev Handler (S : Type) := Call Timing S (Except HandlerError ℤ)

section Generated
variable (T : Crate)

/-- A whole message, up to the flush. -/
def sendMessage (header : MessageHeader) (body : Reader T.Out Unit) :
    Reader T.Out (List UInt8) := do
  T.writeMessageBegin header
  body
  T.writeMessageEnd
  T.flush

/-- The first half of a client's `bench`. -/
def sendBench (seqid : ℤ) (arg : Timing) : Reader T.Out (List UInt8) :=
  sendMessage T ⟨"bench",.call,seqid⟩ (benchArgsWrite T arg)

def recvException : Reader T.In (Except ClientError ℤ) := do
  let e ← T.readApplicationError
  T.readMessageEnd
  return .error (.application e)

def recvResult (fuel : ℕ) : Reader T.In (Except ClientError ℤ) := do
  let result ← benchResultRead T fuel
  T.readMessageEnd
  return okOr result

/-- The second half of a client's `bench`. -/
def recvBench (fuel : ℕ) (seqid : ℤ) : Reader T.In (Except ClientError ℤ) := do
  let h ← T.readMessageBegin
  if h.seqid ≠ seqid then return .error (.unexpected .badSequenceId)
  else if h.name ≠ "bench" then return .error (.unexpected .wrongMethodName)
  else if h.type = .exception then recvException T
  else if h.type ≠ .reply then return .error (.unexpected .invalidMessageType)
  else recvResult T fuel

/-- A server at its end of a connection, and what its handler works on. -/
structure Server (S : Type) where
  input : T.In
  output : T.Out
  memory : S

/-- A message is sent, unless writing it returns an error. -/
def Server.send (s : Server T S) (message : Reader T.Out (List UInt8)) :
    Server T S × Reply (List UInt8) :=
  match message.run s.output with
  | none => (s,.failed)
  | some (bytes,output) => ({ s with output := output },.replied bytes)

def sendResult (seqid ack : ℤ) : Reader T.Out (List UInt8) :=
  sendMessage T ⟨"bench",.reply,seqid⟩ (benchResultWrite T (some ack))

/-- A message with an application error, which is flushed twice. -/
def sendException (name : String) (seqid : ℤ) (e : ApplicationError) :
    Reader T.Out (List UInt8) := do
  T.writeMessageBegin ⟨name,.exception,seqid⟩
  let bytes ← T.writeApplicationError e
  T.writeMessageEnd
  let more ← T.flush
  return bytes ++ more

/-- `process_bench` once the handler is done. -/
def answer (seqid : ℤ) (input : T.In) (output : T.Out) :
    S × Reply (Except HandlerError ℤ) → Server T S × Reply (List UInt8)
  | (memory,.exited) => (⟨input,output,memory⟩,.exited)
  | (memory,.failed) => (⟨input,output,memory⟩,.failed)
  | (memory,.replied (.ok ack)) =>
    Server.send T ⟨input,output,memory⟩ (sendResult T seqid ack)
  | (memory,.replied (.error e)) =>
    Server.send T ⟨input,output,memory⟩ (sendException T "bench" seqid e.sent)

/-- An `Err` of the processor with the server it leaves, or what an `Ok` has sent. -/
abbrev Processed (S : Type) := Except (Server T S × ApplicationError) (Server T S × Reply (List UInt8))

/-- `TBenchProcessFunctions::process_bench`. -/
def processBench (fuel : ℕ) (handler : Handler S) (seqid : ℤ) (s : Server T S) : Processed T S :=
  match (benchArgsRead T fuel).run s.input with
  | none => .error ({ s with input := T.afterError s.input },⟨.unknown,T.errorText s.input⟩)
  | some (.error name,input) => .error ({ s with input := input },⟨.unknown,T.missingText name⟩)
  | some (.ok arg,input) => .ok (answer T seqid input s.output (handler arg s.memory))

/-- The crate's `handle_process_result`, as documented. -/
def handleProcessResult (h : MessageHeader) : Processed T S → Server T S × Reply (List UInt8)
  | .ok r => r
  | .error (s,e) => Server.send T s (sendException T h.name h.seqid e)

def unknownMethod (name : String) : ApplicationError :=
  ⟨.unknownMethod,"unknown method " ++ name⟩

/-- `BenchSyncProcessor::process`. -/
def process (fuel : ℕ) (handler : Handler S) (s : Server T S) : Server T S × Reply (List UInt8) :=
  match T.readMessageBegin.run s.input with
  | none => (s,.failed)
  | some (h,input) =>
    let s := { s with input := input }
    handleProcessResult T h
      (if h.name = "bench" then processBench T fuel handler h.seqid s
      else .error (s,unknownMethod h.name))

/-- Both ends of a connection. -/
structure Connection where
  clientIn : T.In
  clientOut : T.Out
  serverIn : T.In
  serverOut : T.Out

/-- `bench` of a client with the server at the other end, the client's last call having had this
sequence number. -/
def bench (fuel : ℕ) (handler : Handler S) (last : ℤ) (arg : Timing) (s : Connection T × S) :
    (Connection T × S) × Reply (Except ClientError ℤ) :=
  let seqid := asI32 (last + 1)
  match (sendBench T seqid arg).run s.1.clientOut with
  | none => (s,.failed)
  | some (request,clientOut) =>
    match process T fuel handler ⟨T.receive request s.1.serverIn,s.1.serverOut,s.2⟩ with
    | (t,.exited) => ((⟨s.1.clientIn,clientOut,t.input,t.output⟩,t.memory),.exited)
    | (t,.failed) => ((⟨s.1.clientIn,clientOut,t.input,t.output⟩,t.memory),.failed)
    | (t,.replied answer) =>
      match (recvBench T fuel seqid).run (T.receive answer s.1.clientIn) with
      | none => ((⟨s.1.clientIn,clientOut,t.input,t.output⟩,t.memory),.failed)
      | some (outcome,clientIn) =>
        ((⟨clientIn,clientOut,t.input,t.output⟩,t.memory),.replied outcome)

/-- Calls one after the other, up to one that ends the connection or the process. -/
def benchAll (fuel : ℕ) (handler : Handler S) : ℤ → Connection T × S → List Timing →
    (Connection T × S) × List (Reply (Except ClientError ℤ))
  | _, s, [] => (s,[])
  | last, s, arg :: args =>
    match bench T fuel handler last arg s with
    | (t,.replied r) =>
      let rest := benchAll fuel handler (asI32 (last + 1)) t args
      (rest.1,.replied r :: rest.2)
    | (t,r) => (t,[r])

end Generated

end RelayBench.ThriftRsWire
