import RelayBench.ThriftCpp.Acknowledgement
import RelayBench.ThriftCpp.Transparency

/-! # The thrift chain over its connections

Every hop has a connection of its own. The handlers of `thrift-bench/bench.cpp` call one another
by the bytes they send; what the sink keeps and what the client gets is what the chain of
messages does without faults.
-/
namespace RelayBench.ThriftWire
open BinaryProtocol RemoteCall Ports ThriftCpp Function
variable {T : TProtocol} {view : View T} {fuel kNumRelays numMessages : ℕ} {now : ℤ}

/-! ## The handlers -/

/-- A `timing` whose members were assigned. -/
def toWire (t : Timing) : WireTiming :=
  ⟨t.msgid,t.nanosec,CompactProtocol.utf8 t.source,⟨false,false,false⟩⟩

/-- The members of a `timing`, its source read as text. -/
def WireTiming.timing (t : WireTiming) : Timing :=
  ⟨t.msgid,t.nanosec,(String.fromUTF8? ⟨t.source.toArray⟩).getD ""⟩

theorem timing_toWire (t : Timing) : (toWire t).timing = t := by
  simp only [WireTiming.timing, toWire, CompactProtocol.fromUTF8?_utf8, Option.getD_some]

/-- The connections into the servers, the client's into relay 0 first. -/
abbrev Wires (T : TProtocol) := ℕ → Connection T

section Handlers
variable (T : TProtocol) (fuel : ℕ)

/-- What is thrown is thrown on, and caught by the processor. -/
def rethrow : Reply (Except TApplicationException ℤ) → Reply (Except (List UInt8) ℤ)
  | .replied (.ok ack) => .replied (.ok ack)
  | .replied (.error x) => .replied (.error (T.what x))
  | .failed => .replied (.error T.libraryWhat)
  | .exited => .exited

def noteThrown (hop : ℕ) (r : Reply (Except TApplicationException ℤ)) (s : State) : State :=
  match r with
  | .replied (.ok _) => s
  | .exited => s
  | _ => { s with throws := s.throws ++ [hop] }

/-- A `BenchClient` calls the server of a hop. -/
def callHop (hop : ℕ) (server : Handler (Wires T × State)) (arg : WireTiming)
    (w : Wires T × State) : (Wires T × State) × Reply (Except TApplicationException ℤ) :=
  let r := bench T fuel server arg (w.1 hop,w)
  ((update r.1.2.1 hop r.1.1,noteThrown hop r.2 r.1.2.2),r.2)

/-- `RelayHandler::bench`. -/
def wireRelayBench (id : ℕ) (next : Handler (Wires T × State)) : Handler (Wires T × State) :=
  fun arg w =>
    let r := callHop T fuel (id + 1) next (toWire (relayCopy id arg.timing))
      (w.1,w.2.enter (.relay id))
    (r.1,rethrow T r.2)

/-- `SinkHandler::bench`. -/
def wireSinkBench (kNumRelays numMessages : ℕ) (now : ℤ) : Handler (Wires T × State) :=
  fun arg w =>
    match sinkBench kNumRelays numMessages now arg.timing w.2 with
    | (s,.replied ack) => ((w.1,s),.replied (.ok ack))
    | (s,.exited) => ((w.1,s),.exited)
    | (s,.failed) => ((w.1,s),.failed)

/-- The handler of the server that listens on this port. -/
def wireServe (kNumRelays numMessages : ℕ) (now : ℤ) (p : ℕ) : Handler (Wires T × State) :=
  match h : listening kRelayPortStart kNumRelays p with
  | none => fun _ w => (w,.failed)
  | some (.relay id) =>
    wireRelayBench T fuel id (wireServe kNumRelays numMessages now (port (id + 1)))
  | some .sink => wireSinkBench T kNumRelays numMessages now
termination_by port kNumRelays - p
decreasing_by
  obtain ⟨hid,rfl⟩ := relay_of_listening h
  simp only [port]
  omega

/-- A call of `main`'s client. Nothing runs once the process has ended. -/
def wireClientBench (kNumRelays numMessages : ℕ) (msg : Timing) (now : ℤ) (w : Wires T × State) :
    (Wires T × State) × Reply (Except TApplicationException ℤ) :=
  if w.2.exited then (w,.exited)
  else callHop T fuel 0 (wireServe T fuel kNumRelays numMessages now (port 0)) (toWire msg) w

/-- The state after a sequence of messages, each with the sink's clock. -/
def runWire (kNumRelays numMessages : ℕ) : Wires T × State → List (Timing × ℤ) → Wires T × State
  | w, [] => w
  | w, c :: cs =>
    runWire kNumRelays numMessages (wireClientBench T fuel kNumRelays numMessages c.1 c.2 w).1 cs

end Handlers

/-! ## A handler over the wire does what the handler of messages does -/

/-- The relays' messages and the replies fit in a message. -/
structure Roomy (T : TProtocol) (kNumRelays : ℕ) : Prop where
  limit : T.maxMessageSize < 2 ^ 31
  reply : 29 ≤ T.maxMessageSize
  relay : ∀ id < kNumRelays, ∀ t, 51 + (toWire (relayCopy id t)).source.length ≤ T.maxMessageSize

theorem sendable_of_length (hlimit : T.maxMessageSize < 2 ^ 31) {arg : WireTiming}
    (hmsgid : Fits 8 arg.msgid) (hnanosec : Fits 8 arg.nanosec)
    (hsource : 51 + arg.source.length ≤ T.maxMessageSize) : arg.Sendable T where
  writable := ⟨hmsgid,hnanosec,by omega⟩
  small := by rwa [callBytes_length]

/-- The reply to a call, as the outcome of a handler. -/
def lift : Reply ℤ → Reply (Except (List UInt8) ℤ)
  | .replied ack => .replied (.ok ack)
  | .failed => .failed
  | .exited => .exited

/-- The handler behind hop `k` works on the memory as this one, over connections that are idle
again afterwards; it does not throw and acknowledges the message. -/
def Implements (view : View T) (k : ℕ) (handler : Handler (Wires T × State))
    (f : Call Timing State ℤ) : Prop :=
  ∀ arg : WireTiming, arg.Writable → ∀ (wires : Wires T) (s : State),
    (∀ j, k < j → Quiet view (wires j)) →
    ∃ wires', (∀ j, k < j → Quiet view (wires' j)) ∧ (∀ j, j ≤ k → wires' j = wires j) ∧
      handler arg (wires,s) = ((wires',(f arg.timing s).1),lift (f arg.timing s).2) ∧
      ((f arg.timing s).2 = .exited ∨ (f arg.timing s).2 = .replied arg.msgid)

theorem sink_implements : Implements view kNumRelays (wireSinkBench T kNumRelays numMessages now)
    (sinkBench kNumRelays numMessages now) := by
  intro arg _ wires s hquiet
  refine ⟨wires,hquiet,fun _ _ => rfl,?_⟩
  have hreply : (sinkBench kNumRelays numMessages now arg.timing s).2 = .exited ∨
      (sinkBench kNumRelays numMessages now arg.timing s).2 = .replied arg.msgid := by
    unfold sinkBench
    dsimp only
    split
    · exact .inl rfl
    · exact .inr rfl
  refine ⟨?_,hreply⟩
  unfold wireSinkBench
  rcases hsink : sinkBench kNumRelays numMessages now arg.timing s with ⟨t,r⟩
  cases r <;> simp [lift]

/-- A call of a hop is a call of the handler behind it. -/
theorem callHop_implements (hdoc : Documented T view) (hfuel : 3 < fuel)
    (hroom : Roomy T kNumRelays) {k : ℕ} {server : Handler (Wires T × State)}
    {f : Call Timing State ℤ} (h : Implements view k server f) {arg : WireTiming}
    (harg : arg.Sendable T) {wires : Wires T} (hquiet : ∀ j, k ≤ j → Quiet view (wires j))
    (s : State) :
    ∃ wires', (∀ j, k ≤ j → Quiet view (wires' j)) ∧ (∀ j, j < k → wires' j = wires j) ∧
      callHop T fuel k server arg (wires,s) =
        ((wires',(f arg.timing s).1),outcome (lift (f arg.timing s).2)) ∧
      ((f arg.timing s).2 = .exited ∨ (f arg.timing s).2 = .replied arg.msgid) := by
  obtain ⟨after,hafter,hbefore,hserver,hreply⟩ := h arg.received harg.writable.received wires s
    (fun j hj => hquiet j hj.le)
  have hsame : arg.received.timing = arg.timing := rfl
  rw [hsame] at hserver hreply
  have hanswer : Answerable T (server arg.received (wires,s)).2 := by
    rw [hserver]
    rcases hreply with hreply | hreply
    · rw [hreply]
      trivial
    · rw [hreply]
      exact ⟨harg.writable.msgid,by rw [replyBytes_length]; exact hroom.reply⟩
  obtain ⟨d,hd,hbench⟩ := bench_outcome hdoc hfuel harg hanswer (hquiet k le_rfl)
  rw [hserver] at hbench
  refine ⟨update after k d,fun j hj => ?_,fun j hj => ?_,?_,hreply⟩
  · rcases Nat.eq_or_lt_of_le hj with rfl | hlt
    · rwa [update_self]
    · rw [update_of_ne (by omega)]
      exact hafter j hlt
  · rw [update_of_ne (by omega)]
    exact hbefore j hj.le
  · unfold callHop
    rw [hbench]
    rcases hreply with hreply | hreply <;> rw [hreply] <;> rfl

theorem noteThrow_of_ne {hop : ℕ} {client : Call Timing State ℤ} {arg : Timing} {s : State}
    (h : (client arg s).2 ≠ .failed) : noteThrow hop client arg s = client arg s := by
  unfold noteThrow
  rcases hc : client arg s with ⟨t,r⟩
  rw [hc] at h
  cases r with
  | failed => exact absurd rfl h
  | _ => rfl

theorem ne_failed {r : Reply ℤ} {ack : ℤ} (h : r = .exited ∨ r = .replied ack) : r ≠ .failed := by
  rcases h with rfl | rfl <;> simp

theorem relay_implements (hdoc : Documented T view) (hfuel : 3 < fuel)
    (hroom : Roomy T kNumRelays) {id : ℕ} (hid : id < kNumRelays)
    {next : Handler (Wires T × State)} {f : Call Timing State ℤ}
    (h : Implements view (id + 1) next f) :
    Implements view id (wireRelayBench T fuel id next) (relayBench id f) := by
  intro arg harg wires s hquiet
  have hcopy : (toWire (relayCopy id arg.timing)).Sendable T :=
    sendable_of_length hroom.limit harg.msgid harg.nanosec (hroom.relay id hid arg.timing)
  obtain ⟨after,hafter,hbefore,hcall,hreply⟩ := callHop_implements hdoc hfuel hroom h hcopy hquiet
    (s.enter (.relay id))
  rw [timing_toWire] at hcall hreply
  have hrelay : relayBench id f arg.timing s = f (relayCopy id arg.timing) (s.enter (.relay id)) :=
    noteThrow_of_ne (ne_failed hreply)
  refine ⟨after,hafter,fun j hj => hbefore j (by omega),?_,by rw [hrelay]; exact hreply⟩
  rw [hrelay]
  unfold wireRelayBench
  rw [hcall]
  rcases hreply with hreply | hreply <;> rw [hreply] <;> rfl

/-! ## The chain -/

theorem wireServe_relay {id : ℕ} (hid : id < kNumRelays) :
    wireServe T fuel kNumRelays numMessages now (port id) =
      wireRelayBench T fuel id (wireServe T fuel kNumRelays numMessages now (port (id + 1))) := by
  have hlisten : listening kRelayPortStart kNumRelays (port id) = some (.relay id) :=
    listening_relay hid
  rw [wireServe]
  split <;> simp_all

theorem wireServe_sink : wireServe T fuel kNumRelays numMessages now (port kNumRelays) =
    wireSinkBench T kNumRelays numMessages now := by
  have hlisten : listening kRelayPortStart kNumRelays (port kNumRelays) = some .sink :=
    listening_sink
  rw [wireServe]
  split <;> simp_all

theorem handlerAt_relay {id : ℕ} (hid : id < kNumRelays) :
    handlerAt kNumRelays numMessages (fun _ => .none) now id =
      relayBench id (handlerAt kNumRelays numMessages (fun _ => .none) now (id + 1)) := by
  conv_lhs => rw [handlerAt, if_pos hid, serve_port hid, benchClient_processor, remote_none]

/-- The server of every hop. -/
theorem serve_implements (hdoc : Documented T view) (hfuel : 3 < fuel)
    (hroom : Roomy T kNumRelays) (numMessages : ℕ) (now : ℤ) {id : ℕ} (hid : id ≤ kNumRelays) :
    Implements view id (wireServe T fuel kNumRelays numMessages now (port id))
      (handlerAt kNumRelays numMessages (fun _ => .none) now id) := by
  obtain ⟨k,hk⟩ : ∃ k, kNumRelays = id + k := ⟨kNumRelays - id,by omega⟩
  induction k generalizing id with
  | zero =>
    obtain rfl : id = kNumRelays := by omega
    have hsink : handlerAt id numMessages (fun _ => .none) now id = sinkBench id numMessages now :=
      if_neg (lt_irrefl id)
    rw [wireServe_sink, hsink]
    exact sink_implements
  | succ k ih =>
    have hlt : id < kNumRelays := by omega
    rw [wireServe_relay hlt, handlerAt_relay hlt]
    exact relay_implements hdoc hfuel hroom hlt (ih hlt (by omega))

/-! ## The client -/

/-- All connections are idle. -/
def AllQuiet (view : View T) (wires : Wires T) : Prop := ∀ j, Quiet view (wires j)

/-- The call of a message over hops without faults. -/
def faultless (c : Timing × ℤ) : ClientCall := ⟨c.1,c.2,fun _ => .none⟩

theorem wireClientBench_eq (hdoc : Documented T view) (hfuel : 3 < fuel)
    (hroom : Roomy T kNumRelays) {c : Timing × ℤ} (hc : (toWire c.1).Sendable T)
    {wires : Wires T} (hquiet : AllQuiet view wires) (s : State) :
    ∃ wires', AllQuiet view wires' ∧
      wireClientBench T fuel kNumRelays numMessages c.1 c.2 (wires,s) =
        ((wires',(clientBench kNumRelays numMessages (faultless c) s).1),
          outcome (lift (clientBench kNumRelays numMessages (faultless c) s).2)) := by
  unfold wireClientBench clientBench
  by_cases hexited : s.exited = true
  · dsimp only
    rw [if_pos hexited, if_pos hexited]
    exact ⟨wires,hquiet,rfl⟩
  · obtain ⟨after,hafter,_,hcall,hreply⟩ := callHop_implements hdoc hfuel hroom
      (serve_implements hdoc hfuel hroom numMessages c.2 (Nat.zero_le _)) hc
      (fun j _ => hquiet j) s
    rw [timing_toWire] at hcall hreply
    have hclient : noteThrow 0 (benchClient (remote ((faultless c).faults 0)
        (serve kNumRelays numMessages (faultless c).faults (faultless c).now (port 0))))
        (faultless c).msg s = handlerAt kNumRelays numMessages (fun _ => .none) c.2 0 c.1 s := by
      rw [serve_port (Nat.zero_le _), benchClient_processor]
      exact noteThrow_of_ne (ne_failed hreply)
    dsimp only
    rw [if_neg hexited, if_neg hexited, hcall, hclient]
    exact ⟨after,fun j => hafter j (Nat.zero_le j),rfl⟩

theorem runWire_eq (hdoc : Documented T view) (hfuel : 3 < fuel) (hroom : Roomy T kNumRelays)
    {cs : List (Timing × ℤ)} (hcs : ∀ c ∈ cs, (toWire c.1).Sendable T) {wires : Wires T}
    (hquiet : AllQuiet view wires) (s : State) :
    ∃ wires', AllQuiet view wires' ∧ runWire T fuel kNumRelays numMessages (wires,s) cs =
      (wires',runCalls kNumRelays numMessages s (cs.map faultless)) := by
  induction cs generalizing wires s with
  | nil => exact ⟨wires,hquiet,rfl⟩
  | cons c cs ih =>
    obtain ⟨after,hafter,hcall⟩ := @wireClientBench_eq _ _ _ _ numMessages hdoc hfuel hroom c
      (hcs c List.mem_cons_self) wires hquiet s
    obtain ⟨last,hlast,hrun⟩ := ih (fun x hx => hcs x (List.mem_cons_of_mem c hx)) hafter
      (clientBench kNumRelays numMessages (faultless c) s).1
    refine ⟨last,hlast,?_⟩
    rw [runWire, hcall]
    exact hrun

/-- After any messages, the chain that calls its hops by bytes has the memory of the chain of
messages, all its connections are idle, and the next call gets what it gets there. -/
theorem wire_refines (hdoc : Documented T view) (hfuel : 3 < fuel) (hroom : Roomy T kNumRelays)
    (numMessages : ℕ) {before : List (Timing × ℤ)} (hbefore : ∀ c ∈ before, (toWire c.1).Sendable T)
    {c : Timing × ℤ} (hc : (toWire c.1).Sendable T) {wires : Wires T}
    (hquiet : AllQuiet view wires) :
    let s := runCalls kNumRelays numMessages init (before.map faultless)
    let r := clientBench kNumRelays numMessages (faultless c) s
    ∃ wires' wires'', AllQuiet view wires' ∧ AllQuiet view wires'' ∧
      runWire T fuel kNumRelays numMessages (wires,init) before = (wires',s) ∧
      wireClientBench T fuel kNumRelays numMessages c.1 c.2 (wires',s) =
        ((wires'',r.1),outcome (lift r.2)) := by
  intro s r
  obtain ⟨after,hafter,hrun⟩ := @runWire_eq _ _ _ _ numMessages hdoc hfuel hroom _ hbefore _ hquiet
    init
  obtain ⟨last,hlast,hcall⟩ := @wireClientBench_eq _ _ _ _ numMessages hdoc hfuel hroom _ hc _
    hafter s
  exact ⟨after,last,hafter,hlast,hrun,hcall⟩

theorem roomy_one : Roomy (documentedProtocol 100) 1 where
  limit := by norm_num
  reply := by norm_num
  relay id hid t := by
    obtain rfl : id = 0 := by omega
    have hsource : (toWire (relayCopy 0 t)).source.length = 7 := by
      show (CompactProtocol.utf8 ("relay " ++ toString 0)).length = 7
      decide
    rw [hsource]
    norm_num

theorem wire_refines_oneRelay :
    let s := runCalls 1 2 init [faultless (⟨0,5,"c"⟩,25)]
    let r := clientBench 1 2 (faultless (⟨1,6,"c"⟩,30)) s
    ∃ wires' wires'', AllQuiet (documentedView 100) wires' ∧
      AllQuiet (documentedView 100) wires'' ∧
      runWire (documentedProtocol 100) 4 1 2 (fun _ => idle,init) [(⟨0,5,"c"⟩,25)] = (wires',s) ∧
      wireClientBench (documentedProtocol 100) 4 1 2 ⟨1,6,"c"⟩ 30 (wires',s) =
        ((wires'',r.1),outcome (lift r.2)) := by
  have hsendable : ∀ msgid nanosec : ℤ, Fits 8 msgid → Fits 8 nanosec →
      (toWire ⟨msgid,nanosec,"c"⟩).Sendable (documentedProtocol 100) := fun msgid nanosec hm hn =>
    sendable_of_length (by norm_num) hm hn
      (show 51 + (CompactProtocol.utf8 "c").length ≤ 100 by decide)
  refine @wire_refines _ _ 4 1 (documentedProtocol_documented 100) (by norm_num) roomy_one 2
    [(⟨0,5,"c"⟩,25)] (fun c hc => ?_) (⟨1,6,"c"⟩,30)
    (hsendable 1 6 (by norm_num [Fits]) (by norm_num [Fits])) (fun _ => idle)
    (fun _ => ⟨rfl,rfl,rfl,rfl⟩)
  obtain rfl : c = (⟨0,5,"c"⟩,25) := List.mem_singleton.mp hc
  exact hsendable 0 5 (by norm_num [Fits]) (by norm_num [Fits])

end RelayBench.ThriftWire
