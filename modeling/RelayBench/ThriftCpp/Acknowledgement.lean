import RelayBench.ThriftCpp.Model

/-! # Acknowledgements through the thrift chain

The generated client and processor carry a handler's value or exception over a connection
unchanged, so the servers form a chain of handlers; what a call visits, throws and returns
is then an induction over its hops.
-/
namespace RelayBench.ThriftCpp
open RemoteCall Ports
variable {kNumRelays numMessages : ℕ} {faults : ℕ → Fault} {now : ℤ}

/-! ## The servers form a chain of handlers -/

/-- Over a connection a handler behaves as a remote call of it. -/
theorem benchClient_processor (fault : Fault) (handler : Call Timing State ℤ) :
    benchClient (remote fault (processor handler)) = remote fault handler := by
  funext arg s
  cases fault with
  | none =>
    rcases hc : handler arg s with ⟨t,r⟩
    cases r <;> simp [benchClient, processor, dispatchCall, sendBench, processBench, recvBench, hc]
  | lost => simp [benchClient]
  | late =>
    rcases hc : handler arg s with ⟨t,r⟩
    cases r <;> simp [benchClient, remote, processor, dispatchCall, sendBench, processBench, hc]

/-- The handler of the server on the port of `id`. -/
def handlerAt (kNumRelays numMessages : ℕ) (faults : ℕ → Fault) (now : ℤ) (id : ℕ) :
    Call Timing State ℤ :=
  if id < kNumRelays then
    relayBench id (benchClient (remote (faults (id + 1))
      (serve kNumRelays numMessages faults now (port (id + 1)))))
  else sinkBench kNumRelays numMessages now

theorem serve_port {id : ℕ} (hid : id ≤ kNumRelays) :
    serve kNumRelays numMessages faults now (port id) =
      processor (handlerAt kNumRelays numMessages faults now id) := by
  rcases Nat.lt_or_eq_of_le hid with hlt | rfl
  · have hlisten : listening kRelayPortStart kNumRelays (port id) = some (.relay id) :=
      listening_relay hlt
    rw [serve, handlerAt, if_pos hlt]
    split <;> simp_all
  · have hlisten : listening kRelayPortStart id (port id) = some .sink := listening_sink
    rw [serve, handlerAt, if_neg (lt_irrefl id)]
    split <;> simp_all

theorem client_chain : benchClient (remote (faults 0)
    (serve kNumRelays numMessages faults now (port 0))) =
      chain relayBench (sinkBench kNumRelays numMessages now) faults kNumRelays 0 := by
  rw [serve_port (Nat.zero_le _), benchClient_processor]
  apply eq_chain
  · exact if_neg (lt_irrefl _)
  · intro id hid
    conv_lhs => rw [handlerAt, if_pos hid]
    rw [serve_port hid, benchClient_processor]

/-! ## Data and exit -/

theorem noteThrow_reply (hop : ℕ) (client : Call Timing State ℤ) (arg : Timing) (s : State) :
    (noteThrow hop client arg s).2 = (client arg s).2 := by
  unfold noteThrow
  rcases client arg s with ⟨t,r⟩
  cases r <;> rfl

theorem noteThrow_state (hop : ℕ) (client : Call Timing State ℤ) (arg : Timing) (s : State) :
    ∃ throws, (noteThrow hop client arg s).1 = { (client arg s).1 with throws := throws } := by
  unfold noteThrow
  rcases client arg s with ⟨t,r⟩
  cases r <;> exact ⟨_,rfl⟩

theorem noteThrow_throws {hop : ℕ} {client : Call Timing State ℤ} {arg : Timing} {s : State}
    (h : (client arg s).2 ≠ .failed) :
    (noteThrow hop client arg s).1.throws = (client arg s).1.throws := by
  unfold noteThrow
  rcases hc : client arg s with ⟨t,r⟩
  rw [hc] at h
  cases r <;> simp_all

/-- What the sink and its process keep. -/
def State.sink (s : State) : List ℤ × List Report × Bool := (s.data,s.reports,s.exited)

/-- `SinkHandler::bench` on what the sink keeps. -/
def sinkEffect (kNumRelays numMessages : ℕ) (now nanosec : ℤ) :
    List ℤ × List Report × Bool → List ℤ × List Report × Bool := fun (data,reports,exited) =>
  let data := data ++ [nanosecPerHop kNumRelays now nanosec]
  if numMessages ≤ data.length then (data,reports ++ (printStats data).toList,true)
  else (data,reports,exited)

theorem relayBench_forwards (id : ℕ) : Forwards State.sink Timing.nanosec (relayBench id) := by
  intro next arg s
  refine ⟨relayCopy id arg,s.enter (.relay id),rfl,rfl,?_,?_⟩
  · obtain ⟨throws,h⟩ := noteThrow_state (id + 1) next (relayCopy id arg) (s.enter (.relay id))
    rw [relayBench, h]
    rfl
  · rw [relayBench, noteThrow_reply]

theorem chain_sink (arg : Timing) (s : State) :
    let t := (chain relayBench (sinkBench kNumRelays numMessages now) faults kNumRelays 0 arg s).1
    (FromHop (· ≠ .lost) faults kNumRelays 0 →
      t.sink = sinkEffect kNumRelays numMessages now arg.nanosec s.sink) ∧
    (¬FromHop (· ≠ .lost) faults kNumRelays 0 → t.sink = s.sink) := by
  refine @chain_obs _ _ _ _ _ _ _ _ _ State.sink Timing.nanosec
    (sinkEffect kNumRelays numMessages now) ?_ (fun i _ => relayBench_forwards i) arg s
  intro arg s
  unfold sinkBench sinkEffect State.sink State.enter
  dsimp only
  split <;> rfl

theorem chain_exits (arg : Timing) (s : State) :
    (chain relayBench (sinkBench kNumRelays numMessages now) faults kNumRelays 0 arg s).2 =
      .exited ↔ FromHop (· ≠ .lost) faults kNumRelays 0 ∧ numMessages ≤ s.data.length + 1 := by
  refine @chain_exited _ _ _ _ _ _ _ _ _ State.sink Timing.nanosec
    (fun _ sink => numMessages ≤ sink.1.length + 1) ?_ (fun i _ => relayBench_forwards i) arg s
  intro arg s
  unfold sinkBench State.sink State.enter
  dsimp only
  rw [List.length_append, List.length_singleton]
  split <;> simp_all

/-! ## Visits -/

/-- The servers from relay `i` to the sink. -/
def routeFrom (kNumRelays i : ℕ) : List Server :=
  (List.range' i (kNumRelays - i)).map Server.relay ++ [.sink]

theorem routeFrom_zero (kNumRelays : ℕ) : routeFrom kNumRelays 0 = route kNumRelays := by
  simp [routeFrom, route, List.range_eq_range']

theorem routeFrom_succ {i : ℕ} (hi : i < kNumRelays) :
    routeFrom kNumRelays i = .relay i :: routeFrom kNumRelays (i + 1) := by
  obtain ⟨k,rfl⟩ : ∃ k, kNumRelays = i + k + 1 := ⟨kNumRelays - i - 1,by omega⟩
  have hk : i + k + 1 - i = k + 1 := by omega
  have hk' : i + k + 1 - (i + 1) = k := by omega
  simp [routeFrom, hk, hk', List.range'_succ]

/-- A call at hop `i` visits the servers behind it in order, all of them unless a hop loses
the call. -/
def Visits (kNumRelays : ℕ) (faults : ℕ → Fault) (i : ℕ) (f : Call Timing State ℤ) : Prop :=
  ∀ arg s, ∃ visited, (f arg s).1.visits = s.visits ++ visited ∧
    visited <+: routeFrom kNumRelays i ∧
    (FromHop (· ≠ .lost) faults kNumRelays i → visited = routeFrom kNumRelays i)

theorem chain_visits : Visits kNumRelays faults 0
    (chain relayBench (sinkBench kNumRelays numMessages now) faults kNumRelays 0) := by
  apply chain_rule
  · intro arg s
    rw [fromHop_self]
    by_cases hf : faults kNumRelays = .lost
    · exact ⟨[],by simp [hf],List.nil_prefix,fun h => absurd hf h⟩
    · have hsink : (sinkBench kNumRelays numMessages now arg s).1.visits = s.visits ++ [.sink] := by
        unfold sinkBench
        dsimp only
        split <;> rfl
      exact ⟨routeFrom kNumRelays kNumRelays,by simp [remote_state hf, hsink, routeFrom],
        List.prefix_rfl,fun _ => rfl⟩
  · intro i hi next hnext arg s
    rw [fromHop_succ hi.le, routeFrom_succ hi]
    by_cases hf : faults i = .lost
    · exact ⟨[],by simp [hf],List.nil_prefix,fun h => absurd hf h.1⟩
    · obtain ⟨visited,hv,hpre,hfull⟩ := hnext (relayCopy i arg) (s.enter (.relay i))
      refine ⟨.relay i :: visited,?_,(List.prefix_cons_inj _).mpr hpre,fun h => by rw [hfull h.2]⟩
      obtain ⟨throws,h⟩ := noteThrow_state (i + 1) next (relayCopy i arg) (s.enter (.relay i))
      rw [remote_state hf, relayBench, h]
      exact hv.trans (by simp [State.enter])

/-! ## Answers -/

/-- A call at hop `i` that does not throw has met no throw, and one that returns does so
with the message's id and over hops without faults. -/
def Answers (kNumRelays : ℕ) (faults : ℕ → Fault) (i : ℕ) (f : Call Timing State ℤ) : Prop :=
  ∀ arg s, ((f arg s).2 ≠ .failed → (f arg s).1.throws = s.throws) ∧
    ∀ ack, (f arg s).2 = .replied ack →
      ack = arg.msgid ∧ FromHop (· = .none) faults kNumRelays i

theorem answers_remote {i : ℕ} {f : Call Timing State ℤ}
    (hthrows : ∀ arg s, (f arg s).2 ≠ .failed → (f arg s).1.throws = s.throws)
    (hack : ∀ arg s ack, (f arg s).2 = .replied ack → faults i = .none →
      ack = arg.msgid ∧ FromHop (· = .none) faults kNumRelays i) :
    Answers kNumRelays faults i (remote (faults i) f) := by
  intro arg s
  have hthrows := hthrows arg s
  have hack := hack arg s
  cases hfault : faults i with
  | none => exact ⟨hthrows,fun ack h => hack ack h hfault⟩
  | lost => simp
  | late =>
    rcases hc : f arg s with ⟨t,r⟩
    rw [hc] at hthrows
    cases r <;> simp_all [remote]

theorem chain_answers : Answers kNumRelays faults 0
    (chain relayBench (sinkBench kNumRelays numMessages now) faults kNumRelays 0) := by
  apply chain_rule
  · apply answers_remote
    · intro arg s _
      unfold sinkBench
      dsimp only
      split <;> rfl
    · intro arg s ack h hfault
      refine ⟨?_,fromHop_self.mpr hfault⟩
      unfold sinkBench at h
      dsimp only at h
      split at h <;> simp_all
  · intro i hi next hnext
    apply answers_remote
    · intro arg s h
      rw [relayBench, noteThrow_reply] at h
      rw [relayBench, noteThrow_throws h]
      exact (hnext _ _).1 h
    · intro arg s ack h hfault
      rw [relayBench, noteThrow_reply] at h
      obtain ⟨hack,hrest⟩ := (hnext _ _).2 ack h
      exact ⟨hack,(fromHop_succ hi.le).mpr ⟨hfault,hrest⟩⟩

/-! ## Acknowledgement -/

/-- What a call of the client guarantees, from state `s` to state `t`. -/
structure Acknowledged (kNumRelays numMessages : ℕ) (c : ClientCall) (s t : State)
    (reply : Reply ℤ) : Prop where
  /-- It visits relays `0`, …, `N-1` and the sink in order and no other server, as far as the
  first hop that loses it. -/
  visited : s.exited = false → ∃ visited, t.visits = s.visits ++ visited ∧
    visited <+: route kNumRelays ∧
    ((∀ i ≤ kNumRelays, c.faults i ≠ .lost) → visited = route kNumRelays)
  /-- If it returns, the sink has inserted one sample, of this message. -/
  sampled : ∀ ack, reply = .replied ack →
    ack = c.msg.msgid ∧ t.data = s.data ++ [(c.now - c.msg.nanosec).tdiv (kNumRelays + 1)]
  /-- If any hop throws, the call throws. -/
  thrown : t.throws ≠ s.throws → reply = .failed
  /-- From the last sample on it does not return. -/
  last : numMessages ≤ s.data.length ∨ numMessages ≤ t.data.length → ∀ ack, reply ≠ .replied ack

theorem clientBench_acknowledged (kNumRelays numMessages : ℕ) (c : ClientCall) (s : State) :
    Acknowledged kNumRelays numMessages c s (clientBench kNumRelays numMessages c s).1
      (clientBench kNumRelays numMessages c s).2 := by
  unfold clientBench
  rw [client_chain]
  by_cases hex : s.exited = true
  · rw [if_pos hex]
    exact ⟨by simp [hex],by simp,by simp,by simp⟩
  rw [if_neg hex]
  have hsink := @chain_sink kNumRelays numMessages c.faults c.now c.msg s
  have hexits := @chain_exits kNumRelays numMessages c.faults c.now c.msg s
  obtain ⟨visited,hvisits,hpre,hfull⟩ :=
    @chain_visits kNumRelays numMessages c.faults c.now c.msg s
  obtain ⟨hthrows,hack⟩ := @chain_answers kNumRelays numMessages c.faults c.now c.msg s
  rw [routeFrom_zero] at hpre hfull
  rw [fromHop_zero] at hsink hexits hfull
  generalize chain relayBench (sinkBench kNumRelays numMessages c.now) c.faults kNumRelays 0 = f
    at *
  obtain ⟨throws,hstate⟩ := noteThrow_state 0 f c.msg s
  have hreturned {ack : ℤ} (h : (f c.msg s).2 = .replied ack) :
      ack = c.msg.msgid ∧ s.data.length + 1 < numMessages ∧ (f c.msg s).1.data =
        s.data ++ [nanosecPerHop kNumRelays c.now c.msg.nanosec] := by
    obtain ⟨hid,hnone⟩ := hack ack h
    have hreach : ∀ i ≤ kNumRelays, c.faults i ≠ .lost :=
      fun i hi => by simp [fromHop_zero.mp hnone i hi]
    have hlow : s.data.length + 1 < numMessages := by
      by_contra hge
      have hexited := hexits.mpr ⟨hreach,by omega⟩
      rw [h] at hexited
      cases hexited
    refine ⟨hid,hlow,?_⟩
    have hdata := congrArg Prod.fst (hsink.1 hreach)
    unfold sinkEffect State.sink at hdata
    dsimp only at hdata
    split at hdata <;> exact hdata
  constructor
  · intro _
    refine ⟨visited,?_,hpre,hfull⟩
    rw [hstate]
    exact hvisits
  · intro ack h
    rw [noteThrow_reply] at h
    rw [hstate]
    exact ⟨(hreturned h).1,(hreturned h).2.2⟩
  · intro h
    rw [noteThrow_reply]
    by_contra hne
    rw [noteThrow_throws hne] at h
    exact h (hthrows hne)
  · intro hle ack h
    rw [noteThrow_reply] at h
    obtain ⟨_,hlow,hdata⟩ := hreturned h
    rw [hstate, hdata, List.length_append, List.length_singleton] at hle
    omega

/-- Whatever was called before and whatever fails, every call of the client is acknowledged
end to end. -/
theorem calls_acknowledged (kNumRelays numMessages : ℕ) (before : List ClientCall)
    (c : ClientCall) :
    let s := runCalls kNumRelays numMessages init before
    Acknowledged kNumRelays numMessages c s (clientBench kNumRelays numMessages c s).1
      (clientBench kNumRelays numMessages c s).2 :=
  clientBench_acknowledged kNumRelays numMessages c _

/-! ## The samples of a run -/

/-- No hop loses the call. -/
def ClientCall.Reaches (kNumRelays : ℕ) (c : ClientCall) : Prop :=
  ∀ i ≤ kNumRelays, c.faults i ≠ .lost

instance (kNumRelays : ℕ) (c : ClientCall) : Decidable (c.Reaches kNumRelays) :=
  inferInstanceAs (Decidable (∀ i ≤ kNumRelays, c.faults i ≠ .lost))

theorem runCalls_snoc (s : State) (cs : List ClientCall) (c : ClientCall) :
    runCalls kNumRelays numMessages s (cs ++ [c]) =
      (clientBench kNumRelays numMessages c (runCalls kNumRelays numMessages s cs)).1 := by
  induction cs generalizing s with
  | nil => rfl
  | cons c' cs ih => exact ih _

theorem clientBench_sink (c : ClientCall) {s : State} (hex : s.exited = false) :
    (c.Reaches kNumRelays → (clientBench kNumRelays numMessages c s).1.sink =
      sinkEffect kNumRelays numMessages c.now c.msg.nanosec s.sink) ∧
    (¬c.Reaches kNumRelays → (clientBench kNumRelays numMessages c s).1.sink = s.sink) := by
  unfold clientBench
  rw [client_chain]
  have hsink := @chain_sink kNumRelays numMessages c.faults c.now c.msg s
  rw [fromHop_zero] at hsink
  obtain ⟨throws,hstate⟩ := noteThrow_state 0
    (chain relayBench (sinkBench kNumRelays numMessages c.now) c.faults kNumRelays 0) c.msg s
  rw [hex, if_neg Bool.false_ne_true, hstate]
  exact hsink

/-- The sink holds the samples of the first calls that reached it, and the process has
ended when there were enough of them. -/
theorem run_samples (hM : 0 < numMessages) (cs : List ClientCall) :
    (runCalls kNumRelays numMessages init cs).data =
      ((cs.filter (fun c => c.Reaches kNumRelays)).take numMessages).map
        (fun c => nanosecPerHop kNumRelays c.now c.msg.nanosec) ∧
    ((runCalls kNumRelays numMessages init cs).exited = true ↔
      numMessages ≤ (cs.filter (fun c => c.Reaches kNumRelays)).length) := by
  induction cs using List.reverseRecOn with
  | nil => simp [runCalls, init, hM.ne']
  | append_singleton cs c ih =>
    obtain ⟨hdata,hexited⟩ := ih
    rw [runCalls_snoc]
    generalize runCalls kNumRelays numMessages init cs = s at *
    rw [List.filter_append]
    generalize cs.filter (fun c => c.Reaches kNumRelays) = reached at *
    by_cases hex : s.exited = true
    · have hfull := hexited.mp hex
      have hsame : clientBench kNumRelays numMessages c s = (s,.exited) := if_pos hex
      rw [hsame, List.take_append_of_le_length hfull, List.length_append]
      exact ⟨hdata,fun _ => by omega,fun _ => hex⟩
    have hlow : reached.length < numMessages := Nat.lt_of_not_le (fun h => hex (hexited.mpr h))
    obtain ⟨hreached,hlost⟩ := @clientBench_sink kNumRelays numMessages c s (by simpa using hex)
    rw [List.take_of_length_le hlow.le] at hdata
    by_cases hc : c.Reaches kNumRelays
    · have hsink := hreached hc
      have hlength : s.data.length = reached.length := by rw [hdata, List.length_map]
      rw [List.take_of_length_le (by simp [hc]; omega)]
      unfold sinkEffect State.sink at hsink
      simp only [List.length_append, List.length_singleton] at hsink
      by_cases hfull : numMessages ≤ s.data.length + 1
      · rw [if_pos hfull] at hsink
        simp only [Prod.mk.injEq] at hsink
        refine ⟨by simp [hsink.1, hdata, hc],?_⟩
        simp only [hsink.2.2, true_iff, hc, decide_true, List.filter_cons_of_pos, List.filter_nil,
          List.length_append, List.length_singleton]
        omega
      · rw [if_neg hfull] at hsink
        simp only [Prod.mk.injEq] at hsink
        refine ⟨by simp [hsink.1, hdata, hc],?_⟩
        simp only [hsink.2.2, Bool.eq_false_iff.mpr hex, Bool.false_eq_true, false_iff, hc, decide_true, List.filter_cons_of_pos,
          List.filter_nil, List.length_append, List.length_singleton]
        omega
    · have hsink := hlost hc
      simp only [State.sink, Prod.mk.injEq] at hsink
      simp only [hc, decide_false, Bool.false_eq_true, not_false_eq_true, List.filter_cons_of_neg,
        List.filter_nil, List.append_nil, List.take_of_length_le hlow.le, hsink.1, hdata, hsink.2.2]
      exact ⟨trivial,fun h => absurd h hex,fun h => absurd h (by omega)⟩

end RelayBench.ThriftCpp
