import RelayBench.ThriftRs.Faultless
import RelayBench.ThriftRs.WireCalls

/-! # The Rust chain over its connections

Every hop has a connection of its own. The handlers of `thrift-rs/src/main.rs` call one another by
the bytes they send; as long as no hop fails, `main` ends as it does over messages.
-/
namespace RelayBench.ThriftRsWire
open RemoteCall Ports Function CompactMessages
open ThriftRs (State CallInput relayCopy relayBench sinkBench benchClient serve port mainTiming)
open CompactProtocol (utf8)
variable {T : Crate} {view : View T} {fuel numRelays numMessages elapsed : ℕ}

/-! ## The handlers -/

/-- The connections into the servers, the client's into relay 0 first. -/
abbrev Wires (T : Crate) := ℕ → Connection T

/-- What a handler that works on messages returns. -/
def lift : Reply (Except String ℤ) → Reply (Except HandlerError ℤ)
  | .replied (.ok ack) => .replied (.ok ack)
  | .replied (.error text) => .replied (.error (.other text))
  | .failed => .failed
  | .exited => .exited

section Handlers
variable (T : Crate) (fuel : ℕ)

/-- The client of a hop calls the server behind it. -/
def callHop (hop : ℕ) (server : Handler (Wires T × State)) (arg : Timing) (w : Wires T × State) :
    (Wires T × State) × Reply (Except ClientError ℤ) :=
  let r := bench T fuel server (w.2.sequenceNumber hop) arg
    (w.1 hop,(w.1,w.2.nextSequenceNumber hop))
  ((update r.1.2.1 hop r.1.1,r.1.2.2),r.2)

/-- `RelayHandler::handle_bench`. -/
def wireRelayBench (index : ℕ) (next : Handler (Wires T × State)) : Handler (Wires T × State) :=
  fun arg w =>
    if w.2.clientPoisoned index then (w,.failed)
    else
      match callHop T fuel (index + 1) next (relayCopy index arg) w with
      | (v,.replied (.ok _)) => (v,.replied (.ok 0))
      | (v,.exited) => (v,.exited)
      | (v,_) => ((v.1,{ v.2 with clientPoisoned := update v.2.clientPoisoned index true }),.failed)

/-- `SinkHandler::handle_bench`. -/
def wireSinkBench (numRelays numMessages elapsed : ℕ) : Handler (Wires T × State) := fun arg w =>
  let r := sinkBench numRelays numMessages elapsed arg w.2
  ((w.1,r.1),lift r.2)

/-- The handler of the server that listens on this port. -/
def wireServe (numRelays numMessages elapsed : ℕ) (p : ℕ) : Handler (Wires T × State) :=
  match h : listening ThriftRs.RELAY_PORT_START numRelays p with
  | none => fun _ w => (w,.failed)
  | some (.relay index) =>
    wireRelayBench T fuel index (wireServe numRelays numMessages elapsed (port (index + 1)))
  | some .sink => wireSinkBench T numRelays numMessages elapsed
termination_by port numRelays - p
decreasing_by
  obtain ⟨hid,rfl⟩ := relay_of_listening h
  simp only [port]
  omega

/-- The call of `main`'s client. -/
def wireClientBench (numRelays numMessages : ℕ) (input : CallInput) (msg : Timing)
    (w : Wires T × State) : (Wires T × State) × Reply (Except ClientError ℤ) :=
  callHop T fuel 0 (wireServe T fuel numRelays numMessages input.received (port 0)) msg w

/-- One iteration of `main`'s loop, none where the `unwrap` panics. -/
def wireIteration (numRelays numMessages : ℕ) (inputs : ℕ → CallInput) (w : Wires T × State)
    (i : ℕ) : Option (Wires T × State) :=
  match wireClientBench T fuel numRelays numMessages (inputs i) (mainTiming i (inputs i)) w with
  | (v,.replied (.ok _)) => some v
  | _ => none

/-- The connections and the state in which `main` returns, none where it panics. -/
def wireMain (numRelays numMessages : ℕ) (inputs : ℕ → CallInput) (wires : Wires T) :
    Option (Wires T × State) :=
  (List.range numMessages).foldlM (wireIteration T fuel numRelays numMessages inputs)
    (wires,ThriftRs.init)

end Handlers

/-! ## A handler over the wire does what the handler of messages does -/

/-- The answers of the chain's handlers. -/
def Settled (r : Reply (Except String ℤ)) : Prop := r = .replied (.ok 0) ∨ r = .failed

/-- What the client of a hop makes of it. -/
def acked : Reply (Except String ℤ) → Reply ℤ
  | .replied (.ok ack) => .replied ack
  | .replied (.error _) => .failed
  | .failed => .failed
  | .exited => .exited

theorem benchClient_settled {hop : ℕ} {handler : Call Timing State (Except String ℤ)}
    {arg : Timing} {s : State} (h : Settled (handler arg (s.nextSequenceNumber hop)).2) :
    benchClient hop (ThriftRs.process handler) arg s =
      ((handler arg (s.nextSequenceNumber hop)).1,
        acked (handler arg (s.nextSequenceNumber hop)).2) := by
  rcases hcall : handler arg (s.nextSequenceNumber hop) with ⟨t,r⟩
  rw [hcall] at h
  rcases h with rfl | rfl
  · exact ThriftRs.benchClient_ok hcall
  · simp [benchClient, ThriftRs.process, ThriftRs.processBench, hcall, acked]

/-- The handler behind hop `k` works on the memory as this one, over connections that are idle
again afterwards. -/
def Implements (view : View T) (k : ℕ) (handler : Handler (Wires T × State))
    (f : Call Timing State (Except String ℤ)) : Prop :=
  ∀ arg, Sendable arg → ∀ (wires : Wires T) (s : State), (∀ j, k < j → Quiet view (wires j)) →
    ∃ wires', (∀ j, k < j → Quiet view (wires' j)) ∧ (∀ j, j ≤ k → wires' j = wires j) ∧
      handler arg (wires,s) = ((wires',(f arg s).1),lift (f arg s).2) ∧ Settled (f arg s).2

theorem sink_implements : Implements view numRelays (wireSinkBench T numRelays numMessages elapsed)
    (sinkBench numRelays numMessages elapsed) := by
  intro arg _ wires s hquiet
  refine ⟨wires,hquiet,fun _ _ => rfl,rfl,?_⟩
  unfold sinkBench
  cases latency numRelays (asI64 elapsed) arg.nanosec with
  | none => exact .inr rfl
  | some v =>
    show Settled (ThriftRs.pushLatency numMessages v s).2
    unfold ThriftRs.pushLatency
    dsimp only
    split
    · exact .inr rfl
    · split
      · split
        · exact .inr rfl
        · exact .inl rfl
      · exact .inl rfl

/-- A call of a hop is a call of the handler behind it. -/
theorem callHop_implements (hdoc : Documented T view) (hfuel : 3 < fuel) {k : ℕ}
    {server : Handler (Wires T × State)} {f : Call Timing State (Except String ℤ)}
    (h : Implements view k server f) {arg : Timing} (harg : Sendable arg) {wires : Wires T}
    (hquiet : ∀ j, k ≤ j → Quiet view (wires j)) (s : State) :
    let r := f arg (s.nextSequenceNumber k)
    ∃ wires', (∀ j, k ≤ j → Quiet view (wires' j)) ∧ (∀ j, j < k → wires' j = wires j) ∧
      callHop T fuel k server arg (wires,s) = ((wires',r.1),outcome (lift r.2)) ∧
      Settled r.2 := by
  intro r
  obtain ⟨after,hafter,hbefore,hserver,hreply⟩ := h arg harg wires (s.nextSequenceNumber k)
    (fun j hj => hquiet j hj.le)
  have hanswer : Answerable (server arg (wires,s.nextSequenceNumber k)).2 := by
    rw [hserver]
    rcases hreply with hreply | hreply
    · rw [hreply]
      norm_num [lift, Answerable, Fits]
    · rw [hreply]
      trivial
  obtain ⟨d,hd,hbench⟩ := bench_outcome hdoc hfuel harg hanswer (hquiet k le_rfl)
    (s.sequenceNumber k)
  rw [hserver] at hbench
  refine ⟨update after k d,fun j hj => ?_,fun j hj => ?_,?_,hreply⟩
  · rcases Nat.eq_or_lt_of_le hj with rfl | hlt
    · rwa [update_self]
    · rw [update_of_ne (by omega)]
      exact hafter j hlt
  · rw [update_of_ne (by omega)]
    exact hbefore j hj.le
  · unfold callHop
    dsimp only
    rw [hbench]

/-- The name of a relay is short. -/
theorem relayCopy_sendable {arg : Timing} (harg : Sendable arg) {index : ℕ}
    (hindex : index < 2 ^ 31) : Sendable (relayCopy index arg) where
  msgid := harg.msgid
  nanosec := harg.nanosec
  source := by
    have hdigits : (toString index).length ≤ 10 :=
      (Nat.length_repr_le_iff (by norm_num)).mpr (by omega)
    have hname := utf8_length_le (toString index)
    have hhop : (utf8 "relay hop ").length = 10 := by decide
    show (utf8 ("relay hop " ++ toString index)).length < 2 ^ 32
    rw [utf8_append, List.length_append]
    omega

theorem relay_implements (hdoc : Documented T view) (hfuel : 3 < fuel) {index : ℕ}
    (hindex : index < 2 ^ 31) {next : Handler (Wires T × State)}
    {f : Call Timing State (Except String ℤ)} (h : Implements view (index + 1) next f) :
    Implements view index (wireRelayBench T fuel index next)
      (relayBench index (benchClient (index + 1) (ThriftRs.process f))) := by
  intro arg harg wires s hquiet
  unfold wireRelayBench relayBench
  by_cases hpoisoned : s.clientPoisoned index
  · refine ⟨wires,hquiet,fun _ _ => rfl,?_,?_⟩
    · rw [if_pos hpoisoned, if_pos hpoisoned]
      rfl
    · rw [if_pos hpoisoned]
      exact .inr rfl
  · obtain ⟨after,hafter,hbefore,hcall,hreply⟩ := callHop_implements hdoc hfuel h
      (relayCopy_sendable harg hindex) hquiet s
    refine ⟨after,hafter,fun j hj => hbefore j (by omega),?_⟩
    rw [if_neg hpoisoned, if_neg hpoisoned, hcall, benchClient_settled hreply]
    rcases hreply with hreply | hreply
    · rw [hreply]
      exact ⟨rfl,.inl rfl⟩
    · rw [hreply]
      exact ⟨rfl,.inr rfl⟩

/-! ## The chain -/

theorem wireServe_relay {index : ℕ} (hindex : index < numRelays) :
    wireServe T fuel numRelays numMessages elapsed (port index) =
      wireRelayBench T fuel index
        (wireServe T fuel numRelays numMessages elapsed (port (index + 1))) := by
  have hlisten : listening ThriftRs.RELAY_PORT_START numRelays (port index) =
      some (.relay index) := listening_relay hindex
  rw [wireServe]
  split <;> simp_all

theorem wireServe_sink : wireServe T fuel numRelays numMessages elapsed (port numRelays) =
    wireSinkBench T numRelays numMessages elapsed := by
  have hlisten : listening ThriftRs.RELAY_PORT_START numRelays (port numRelays) = some .sink :=
    listening_sink
  rw [wireServe]
  split <;> simp_all

/-- The server of every hop. -/
theorem serve_implements (hdoc : Documented T view) (hfuel : 3 < fuel) (hN : numRelays < 2 ^ 31)
    (numMessages elapsed : ℕ) {index : ℕ} (hindex : index ≤ numRelays) :
    ∃ f, serve numRelays numMessages (fun _ => .none) elapsed (port index) = ThriftRs.process f ∧
      Implements view index (wireServe T fuel numRelays numMessages elapsed (port index)) f := by
  obtain ⟨k,hk⟩ : ∃ k, numRelays = index + k := ⟨numRelays - index,by omega⟩
  induction k generalizing index with
  | zero =>
    obtain rfl : index = numRelays := by omega
    rw [wireServe_sink]
    exact ⟨_,ThriftRs.serve_sink,sink_implements⟩
  | succ k ih =>
    have hlt : index < numRelays := by omega
    obtain ⟨f,hserve,himplements⟩ := ih (show index + 1 ≤ numRelays by omega) (by omega)
    refine ⟨_,ThriftRs.serve_relay hlt,?_⟩
    rw [wireServe_relay hlt, remote_none, hserve]
    exact relay_implements hdoc hfuel (by omega) himplements

/-! ## `main` -/

/-- All connections are idle. -/
def AllQuiet (view : View T) (wires : Wires T) : Prop := ∀ j, Quiet view (wires j)

theorem wireClientBench_eq (hdoc : Documented T view) (hfuel : 3 < fuel) (hN : numRelays < 2 ^ 31)
    {input : CallInput} (hfaults : input.faults = fun _ => .none) {msg : Timing}
    (hmsg : Sendable msg) {wires : Wires T} (hquiet : AllQuiet view wires) (s : State) :
    ∃ wires' r, AllQuiet view wires' ∧ Settled r ∧
      wireClientBench T fuel numRelays numMessages input msg (wires,s) =
        ((wires',(ThriftRs.clientBench numRelays numMessages input msg s).1),outcome (lift r)) ∧
      (ThriftRs.clientBench numRelays numMessages input msg s).2 = acked r := by
  obtain ⟨f,hserve,himplements⟩ := @serve_implements _ _ _ _ hdoc hfuel hN numMessages
    input.received 0 (Nat.zero_le _)
  obtain ⟨after,hafter,_,hcall,hreply⟩ := callHop_implements hdoc hfuel himplements hmsg
    (fun j _ => hquiet j) s
  have hclient : ThriftRs.clientBench numRelays numMessages input msg s =
      ((f msg (s.nextSequenceNumber 0)).1,acked (f msg (s.nextSequenceNumber 0)).2) := by
    rw [ThriftRs.clientBench, hfaults, remote_none, hserve]
    exact benchClient_settled hreply
  refine ⟨after,_,fun j => hafter j (Nat.zero_le j),hreply,?_,?_⟩
  · rw [hclient]
    exact hcall
  · rw [hclient]

theorem mainTiming_sendable {i : ℕ} (hi : i < 2 ^ 31) (input : CallInput) :
    Sendable (mainTiming i input) where
  msgid := by
    show Fits 64 (i : ℤ)
    constructor
    · norm_num
    · norm_num
      omega
  nanosec := by
    have hrange := asI64_inI64 input.sent
    unfold InI64 at hrange
    unfold Fits mainTiming
    norm_num at hrange ⊢
    exact hrange
  source := by
    show (utf8 "client").length < 2 ^ 32
    decide

/-- An iteration over the wire, from the state of one over messages. -/
theorem wireIteration_eq (hdoc : Documented T view) (hfuel : 3 < fuel) (hN : numRelays < 2 ^ 31)
    {inputs : ℕ → CallInput} {i : ℕ} (hi : i < 2 ^ 31)
    (hfaults : (inputs i).faults = fun _ => .none) {wires : Wires T} (hquiet : AllQuiet view wires)
    (s : State) :
    (∀ t, ThriftRs.mainIteration numRelays numMessages inputs s i = some t → ∃ wires',
      AllQuiet view wires' ∧
        wireIteration T fuel numRelays numMessages inputs (wires,s) i = some (wires',t)) ∧
    (ThriftRs.mainIteration numRelays numMessages inputs s i = none →
      wireIteration T fuel numRelays numMessages inputs (wires,s) i = none) := by
  obtain ⟨after,r,hafter,hr,hwire,hreply⟩ := @wireClientBench_eq _ _ _ _ numMessages hdoc hfuel hN
    (inputs i) hfaults _ (mainTiming_sendable hi (inputs i)) wires hquiet s
  unfold ThriftRs.mainIteration wireIteration
  rw [hwire]
  rcases hclient : ThriftRs.clientBench numRelays numMessages (inputs i) (mainTiming i (inputs i)) s
    with ⟨u,q⟩
  rw [hclient] at hreply
  obtain rfl : q = acked r := hreply
  rcases hr with rfl | rfl
  · refine ⟨fun t ht => ?_,fun hnone => absurd hnone (Option.some_ne_none u)⟩
    obtain rfl : u = t := by simpa [acked] using ht
    exact ⟨after,hafter,rfl⟩
  · refine ⟨fun t ht => ?_,fun _ => rfl⟩
    cases ht

theorem iterations_eq (hdoc : Documented T view) (hfuel : 3 < fuel) (hN : numRelays < 2 ^ 31)
    {inputs : ℕ → CallInput} {is : List ℕ} (his : ∀ i ∈ is, i < 2 ^ 31)
    (hfaults : ∀ i ∈ is, (inputs i).faults = fun _ => .none) {wires : Wires T}
    (hquiet : AllQuiet view wires) (s : State) :
    (∀ t, is.foldlM (ThriftRs.mainIteration numRelays numMessages inputs) s = some t → ∃ wires',
      AllQuiet view wires' ∧
        is.foldlM (wireIteration T fuel numRelays numMessages inputs) (wires,s) =
          some (wires',t)) ∧
    (is.foldlM (ThriftRs.mainIteration numRelays numMessages inputs) s = none →
      is.foldlM (wireIteration T fuel numRelays numMessages inputs) (wires,s) = none) := by
  induction is generalizing wires s with
  | nil =>
    refine ⟨fun t ht => ⟨wires,hquiet,?_⟩,fun hnone => by cases hnone⟩
    obtain rfl : s = t := by simpa using ht
    rfl
  | cons i is ih =>
    obtain ⟨hsome,hnone⟩ := @wireIteration_eq _ _ _ _ numMessages hdoc hfuel hN inputs i
      (his i List.mem_cons_self) (hfaults i List.mem_cons_self) wires hquiet s
    rw [List.foldlM_cons, List.foldlM_cons]
    cases hiteration : ThriftRs.mainIteration numRelays numMessages inputs s i with
    | none =>
      rw [hnone hiteration]
      refine ⟨fun t ht => ?_,fun _ => rfl⟩
      cases ht
    | some t =>
      obtain ⟨after,hafter,hwire⟩ := hsome t hiteration
      rw [hwire]
      exact ih (fun j hj => his j (List.mem_cons_of_mem i hj))
        (fun j hj => hfaults j (List.mem_cons_of_mem i hj)) hafter t

/-- While no hop fails, `main` over the bytes of the connections returns exactly where `main` over
messages does, in the same state, with all connections idle; it panics where that one panics. -/
theorem main_over_bytes (hdoc : Documented T view) (hfuel : 3 < fuel) (hN : numRelays < 2 ^ 31)
    (hM : numMessages < 2 ^ 31) {inputs : ℕ → CallInput}
    (hfaults : ∀ i < numMessages, (inputs i).faults = fun _ => .none) {wires : Wires T}
    (hquiet : AllQuiet view wires) :
    (wireMain T fuel numRelays numMessages inputs wires).map Prod.snd =
      ThriftRs.main numRelays numMessages inputs ∧
    ∀ w, wireMain T fuel numRelays numMessages inputs wires = some w → AllQuiet view w.1 := by
  obtain ⟨hsome,hnone⟩ := @iterations_eq _ _ _ _ numMessages hdoc hfuel hN inputs
    (List.range numMessages) (fun i hi => (List.mem_range.mp hi).trans hM)
    (fun i hi => hfaults i (List.mem_range.mp hi)) wires hquiet ThriftRs.init
  unfold wireMain ThriftRs.main
  cases hmain : (List.range numMessages).foldlM
      (ThriftRs.mainIteration numRelays numMessages inputs) ThriftRs.init with
  | none =>
    rw [hnone hmain]
    exact ⟨rfl,fun w hw => by cases hw⟩
  | some t =>
    obtain ⟨after,hafter,hwire⟩ := hsome t hmain
    rw [hwire]
    refine ⟨rfl,fun w hw => ?_⟩
    cases hw
    exact hafter

theorem main_over_bytes_oneMessage :
    (wireMain documentedCrate 4 1 1 (fun _ => ThriftRs.oneMessage) (fun _ => idle)).map Prod.snd =
      ThriftRs.main 1 1 (fun _ => ThriftRs.oneMessage) ∧
    ∀ w, wireMain documentedCrate 4 1 1 (fun _ => ThriftRs.oneMessage) (fun _ => idle) = some w →
      AllQuiet documentedView w.1 :=
  main_over_bytes documentedCrate_documented (by norm_num) (by norm_num) (by norm_num)
    (fun _ _ => rfl) (fun _ => idle_quiet)

end RelayBench.ThriftRsWire
