import RelayBench.Library.Execution
import RelayBench.ThriftRs.Model

/-! # The Rust thrift chain under concurrent callers

Every caller has a connection of its own to server 0, and relay `k` one connection to server
`k + 1`, which its workers share under a mutex; server `numRelays` is the sink. One worker
serves each connection. Callers and workers take their steps in any order. A message carries
the call it comes from, and a reply that of the reply it was made from; these and the fields
`sent`, `answered` and `pushed` only record what happened.
-/
namespace RelayBench.ThriftRs
open RemoteCall Function

/-- The `nth` call of a caller. -/
structure Request where
  caller : ℕ
  nth : ℕ
  arg : Timing
deriving DecidableEq, Repr

structure Tagged (α : Type) where
  request : Request
  message : α

/-- Where a worker is: the call it serves, the sequence number to answer and what it holds. -/
inductive Pc
  | idle
  | handling (r : Request) (sequenceNumber : ℤ) (arg : Timing)
  | calling (r : Request) (sequenceNumber : ℤ) (arg : Timing)
  | awaiting (r : Request) (sequenceNumber : ℤ)
  | locking (r : Request) (sequenceNumber : ℤ) (latency : ℤ)
  | pushing (r : Request) (sequenceNumber : ℤ) (latency : ℤ)
  | unlocking (r : Request) (sequenceNumber : ℤ)
  | replying (r : Request) (m : ReplyMessage)
  | panicked

/-- A connection: the client's counter, the messages both ways and the worker serving it. -/
structure Connection where
  sequenceNumber : ℤ
  requests : List (Tagged CallMessage)
  replies : List (Tagged ReplyMessage)
  worker : Pc

inductive Caller
  | idle
  | waiting (r : Request)
  | panicked

structure Threads where
  caller : ℕ → Caller
  connection : ℕ × ℕ → Connection
  holder : ℕ → Option ℕ
  memory : State
  sent : ℕ → List Request
  answered : ℕ → List Request
  pushed : List (Request × ℤ)

def Threads.init : Threads where
  caller _ := .idle
  connection _ := ⟨0,[],[],.idle⟩
  holder _ := none
  memory := ThriftRs.init
  sent _ := []
  answered _ := []
  pushed := []

inductive ThreadLabel
  | call (j : ℕ) (arg : Timing)
  | receive (j : ℕ)
  | run (k j : ℕ) (elapsed : ℕ)
deriving DecidableEq, Repr

/-! ## Steps -/

/-- `send_bench`. -/
def Connection.send (c : Connection) (r : Request) (arg : Timing) : Connection :=
  let sequenceNumber := asI32 (c.sequenceNumber + 1)
  { c with
    sequenceNumber := sequenceNumber
    requests := c.requests ++ [⟨r,⟨⟨"bench",.call,sequenceNumber⟩,arg⟩⟩] }

/-- `process` up to the handler. -/
def received (r : Request) (m : CallMessage) : Pc :=
  if m.ident.name = "bench" then .handling r m.ident.sequenceNumber m.arg
  else .replying r ⟨⟨m.ident.name,.exception,m.ident.sequenceNumber⟩,
    .error ("unknown method " ++ m.ident.name)⟩

/-- The answer of `process_bench` to the `Ok(0)` of both handlers. -/
def okReply (sequenceNumber : ℤ) : ReplyMessage := ⟨⟨"bench",.reply,sequenceNumber⟩,.ok (some 0)⟩

def Threads.put (s : Threads) (k j : ℕ) (c : Connection) : Threads :=
  { s with connection := update s.connection (k,j) c }

def Threads.goto (s : Threads) (k j : ℕ) (pc : Pc) : Threads :=
  s.put k j { s.connection (k,j) with worker := pc }

/-- The next step of the worker of connection `j` of server `k`. What the sink does under its
mutex is one step. -/
def workerStep (numRelays numMessages : ℕ) (s : Threads) (k j elapsed : ℕ) : Option Threads :=
  let c := s.connection (k,j)
  match c.worker with
  | .idle =>
    match c.requests with
    | [] => none
    | ⟨r,m⟩ :: rest => some (s.put k j { c with requests := rest, worker := received r m })
  | .handling r sequenceNumber arg =>
    if k < numRelays then
      if s.holder k = none then
        some (if s.memory.clientPoisoned k then s.goto k j .panicked
          else { s.goto k j (.calling r sequenceNumber arg) with
            holder := update s.holder k (some j) })
      else none
    else
      some (match latency numRelays (asI64 elapsed) arg.nanosec with
        | none => s.goto k j .panicked
        | some v => s.goto k j (.locking r sequenceNumber v))
  | .calling r sequenceNumber arg =>
    some ((s.goto k j (.awaiting r sequenceNumber)).put (k + 1) 0
      ((s.connection (k + 1,0)).send r (relayCopy k arg)))
  | .awaiting _ sequenceNumber =>
    let next := s.connection (k + 1,0)
    match next.replies with
    | [] => none
    | ⟨r,m⟩ :: rest =>
      let s := s.put (k + 1) 0 { next with replies := rest }
      some (match readReply next.sequenceNumber m with
        | .ok _ => s.goto k j (.unlocking r sequenceNumber)
        | .error _ => { s.goto k j .panicked with
            holder := update s.holder k none
            memory := { s.memory with clientPoisoned := update s.memory.clientPoisoned k true } })
  | .locking r sequenceNumber v =>
    if s.holder k = none then
      some { s.goto k j (.pushing r sequenceNumber v) with holder := update s.holder k (some j) }
    else none
  | .pushing r sequenceNumber v =>
    some (match pushLatency numMessages v s.memory with
      | (memory,.replied (.ok _)) => { s.goto k j (.unlocking r sequenceNumber) with
          memory := memory, pushed := s.pushed ++ [(r,v)] }
      | (memory,_) => { s.goto k j .panicked with
          holder := update s.holder k none, memory := memory })
  | .unlocking r sequenceNumber =>
    some { s.goto k j (.replying r (okReply sequenceNumber)) with
      holder := update s.holder k none }
  | .replying r m =>
    some (s.put k j { c with replies := c.replies ++ [⟨r,m⟩], worker := .idle })
  | .panicked => none

def threadStep (numRelays numMessages callers : ℕ) (s : Threads) : ThreadLabel → Option Threads
  | .call j arg =>
    match s.caller j with
    | .idle =>
      if j < callers then
        let r : Request := ⟨j,(s.sent j).length,arg⟩
        some { s.put 0 j ((s.connection (0,j)).send r arg) with
          caller := update s.caller j (.waiting r)
          sent := update s.sent j (s.sent j ++ [r]) }
      else none
    | _ => none
  | .receive j =>
    let c := s.connection (0,j)
    match s.caller j, c.replies with
    | .waiting _, ⟨r,m⟩ :: rest =>
      let s := s.put 0 j { c with replies := rest }
      some (match readReply c.sequenceNumber m with
        | .ok _ => { s with
            caller := update s.caller j .idle, answered := update s.answered j (s.answered j ++ [r]) }
        | .error _ => { s with caller := update s.caller j .panicked })
    | _, _ => none
  | .run k j elapsed => workerStep numRelays numMessages s k j elapsed

/-- The steps of a thread that is under way; the others begin a call. -/
def ThreadLabel.Continues : ThreadLabel → Prop
  | .call _ _ => False
  | _ => True

/-! ## What is on a connection -/

/-- The call a relay's worker waits for. -/
def Pc.awaited : Pc → Option Request
  | .awaiting r _ => some r
  | _ => none

/-- The call a worker has not pushed yet, as far as it knows itself. -/
def Pc.going : Pc → List Request
  | .handling r _ _ | .calling r _ _ | .locking r _ _ | .pushing r _ _ => [r]
  | _ => []

/-- The call a worker is about to answer. -/
def Pc.returning : Pc → List Request
  | .unlocking r _ | .replying r _ => [r]
  | _ => []

/-- The statements under the server's mutex. -/
def Pc.Inside : Pc → Prop
  | .calling _ _ _ | .awaiting _ _ | .pushing _ _ _ | .unlocking _ _ => True
  | _ => False

def Connection.going (c : Connection) : List Request :=
  c.requests.map Tagged.request ++ c.worker.going

def Connection.returning (c : Connection) : List Request :=
  c.worker.returning ++ c.replies.map Tagged.request

/-- The calls that were sent on a connection and whose replies have not been read. -/
def Connection.outstanding (c : Connection) : List Request :=
  c.going ++ c.worker.awaited.toList ++ c.returning

/-- The call that a caller waits for. -/
def Caller.awaited : Caller → Option Request
  | .waiting r => some r
  | _ => none

/-- The call that the holder of server `k`'s mutex waits for. -/
def Threads.calling (s : Threads) (k : ℕ) : Option Request :=
  (s.holder k).bind (fun w => (s.connection (k,w)).worker.awaited)

/-- The call that the client of connection `j` of server `k` waits for. -/
def Threads.awaited (s : Threads) : ℕ → ℕ → Option Request
  | 0, j => (s.caller j).awaited
  | k + 1, 0 => s.calling k
  | _ + 1, _ + 1 => none

end RelayBench.ThriftRs
