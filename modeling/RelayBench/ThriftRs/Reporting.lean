import RelayBench.ThriftRs.Model

/-! # The report is printed before `main` returns

An `Ok` is held back through all relays until the sink has pushed the message's latency.
`main` returns after `M` of them, and the last has filled the sink's vector.
-/
namespace RelayBench.ThriftRs
open RemoteCall Ports Function
variable {numRelays numMessages : ℕ} {faults : ℕ → Fault} {elapsed : ℕ}

/-! ## One hop -/

/-- A call returns `Ok` only after the handler on the other side has returned `Ok`. -/
theorem benchClient_replied {hop : ℕ} {fault : Fault}
    {handler : Call Timing State (Except String ℤ)} {arg : Timing} {s t : State} {v : ℤ}
    (h : benchClient hop (remote fault (process handler)) arg s = (t,.replied v)) :
    fault = .none ∧ handler arg (s.nextSequenceNumber hop) = (t,.replied (.ok v)) := by
  cases fault with
  | none =>
    refine ⟨rfl,?_⟩
    rcases hc : handler arg (s.nextSequenceNumber hop) with ⟨u,r⟩
    simp only [benchClient, remote_none, process, if_true, processBench, hc] at h
    rcases r with (text | w) | _ | _ <;> simp_all [readReply]
  | lost => simp [benchClient] at h
  | late =>
    rcases hc : handler arg (s.nextSequenceNumber hop) with ⟨u,r⟩
    simp only [benchClient, remote, process, if_true, processBench, hc] at h
    rcases r with (text | w) | _ | _ <;> simp_all

theorem relayBench_replied {index : ℕ} {client : Call Timing State ℤ} {arg : Timing}
    {s t : State} {v : ℤ} (h : relayBench index client arg s = (t,.replied (.ok v))) :
    ∃ w, client (relayCopy index arg) s = (t,.replied w) := by
  unfold relayBench at h
  split at h
  · simp at h
  · rcases hc : client (relayCopy index arg) s with ⟨u,r⟩
    rw [hc] at h
    cases r <;> simp_all

/-- What the sink keeps. -/
def State.sink (s : State) : List ℤ × List Report × List ℤ := (s.latencyVec,s.reports,s.pushed)

/-- Pushing a latency, reporting and clearing a vector it fills. -/
def push (numMessages : ℕ) (v : ℤ) :
    List ℤ × List Report × List ℤ → List ℤ × List Report × List ℤ :=
  fun (latencyVec,reports,pushed) =>
    if (latencyVec ++ [v]).length = numMessages then
      ([],reports ++ (printStats (latencyVec ++ [v])).toList,pushed ++ [v])
    else (latencyVec ++ [v],reports,pushed ++ [v])

/-- One latency of the message was pushed from one state to the other. -/
def Pushed (numRelays numMessages elapsed : ℕ) (arg : Timing) (s t : State) : Prop :=
  ∃ v, latency numRelays (asI64 elapsed) arg.nanosec = some v ∧
    t.sink = push numMessages v s.sink

theorem pushLatency_replied {v w : ℤ} {s t : State}
    (h : pushLatency numMessages v s = (t,.replied (.ok w))) :
    t.sink = push numMessages v s.sink := by
  unfold pushLatency at h
  unfold push State.sink
  dsimp only at h ⊢
  split at h
  · simp at h
  by_cases hfull : (s.latencyVec ++ [v]).length = numMessages
  · obtain ⟨r,hr,_⟩ := printStats_of_ne_nil (List.append_ne_nil_of_right_ne_nil s.latencyVec
      (List.cons_ne_nil v []))
    rw [if_pos hfull, hr] at h
    rw [if_pos hfull, hr]
    cases h
    rfl
  · rw [if_neg hfull] at h
    rw [if_neg hfull]
    cases h
    rfl

theorem sinkBench_replied {arg : Timing} {s t : State} {v : ℤ}
    (h : sinkBench numRelays numMessages elapsed arg s = (t,.replied (.ok v))) :
    Pushed numRelays numMessages elapsed arg s t := by
  unfold sinkBench at h
  generalize hlatency : latency numRelays (asI64 elapsed) arg.nanosec = o at h
  cases o with
  | none => simp at h
  | some lat => exact ⟨lat,hlatency,pushLatency_replied h⟩

/-! ## The chain -/

theorem serve_relay {index : ℕ} (h : index < numRelays) :
    serve numRelays numMessages faults elapsed (port index) =
      process (relayBench index (benchClient (index + 1) (remote (faults (index + 1))
        (serve numRelays numMessages faults elapsed (port (index + 1)))))) := by
  have hlisten : listening RELAY_PORT_START numRelays (port index) = some (.relay index) :=
    listening_relay h
  rw [serve]
  split <;> simp_all

theorem serve_sink : serve numRelays numMessages faults elapsed (port numRelays) =
    process (sinkBench numRelays numMessages elapsed) := by
  have hlisten : listening RELAY_PORT_START numRelays (port numRelays) = some .sink :=
    listening_sink
  rw [serve]
  split <;> simp_all

/-- The relays over their connections. -/
def link (index : ℕ) (next : Call CallMessage State ReplyMessage) :
    Call CallMessage State ReplyMessage :=
  process (relayBench index (benchClient (index + 1) next))

theorem serve_chain : remote (faults 0) (serve numRelays numMessages faults elapsed (port 0)) =
    chain link (process (sinkBench numRelays numMessages elapsed)) faults numRelays 0 :=
  @eq_chain _ _ _ _ _ _ _ (fun index => serve numRelays numMessages faults elapsed (port index))
    serve_sink (fun _ h => serve_relay h)

/-- An `Ok` from hop `i` means that the sink has pushed. -/
def OkPushed (numRelays numMessages elapsed i : ℕ)
    (f : Call CallMessage State ReplyMessage) : Prop :=
  ∀ arg s t v, benchClient i f arg s = (t,.replied v) →
    Pushed numRelays numMessages elapsed arg s t

theorem chain_okPushed : OkPushed numRelays numMessages elapsed 0
    (chain link (process (sinkBench numRelays numMessages elapsed)) faults numRelays 0) := by
  apply chain_rule
  · intro arg s t v h
    obtain ⟨lat,hlat,hsink⟩ := sinkBench_replied (benchClient_replied h).2
    exact ⟨lat,hlat,hsink⟩
  · intro i hi next hnext arg s t v h
    obtain ⟨w,hw⟩ := relayBench_replied (benchClient_replied h).2
    obtain ⟨lat,hlat,hsink⟩ := hnext (relayCopy i arg) (s.nextSequenceNumber i) t w hw
    have hsame : (relayCopy i arg).nanosec = arg.nanosec := rfl
    rw [hsame] at hlat
    exact ⟨lat,hlat,hsink⟩

theorem clientBench_pushed {input : CallInput} {arg : Timing} {s t : State} {v : ℤ}
    (h : clientBench numRelays numMessages input arg s = (t,.replied v)) :
    Pushed numRelays numMessages input.received arg s t := by
  rw [clientBench, serve_chain] at h
  exact chain_okPushed arg s t v h

/-! ## `main` -/

/-- The latencies of the first `k` messages, as the sink computes them. -/
def Latencies (numRelays : ℕ) (inputs : ℕ → CallInput) (k : ℕ) (vs : List ℤ) : Prop :=
  vs.length = k ∧ ∀ i < k, vs[i]? =
    latency numRelays (asI64 (inputs i).received) (mainTiming i (inputs i)).nanosec

/-- After `k` iterations the sink has pushed their latencies; it has reported on the last. -/
structure Iterated (numRelays numMessages : ℕ) (inputs : ℕ → CallInput) (k : ℕ) (s : State) :
    Prop where
  latencies : Latencies numRelays inputs k s.pushed
  waiting : k < numMessages → s.latencyVec = s.pushed ∧ s.reports = []
  reported : k = numMessages →
    s.latencyVec = [] ∧ ∃ r, s.reports = [r] ∧ r.array.Perm s.pushed

theorem iterated_succ {inputs : ℕ → CallInput} {k : ℕ} {s t : State} (hk : k < numMessages)
    (hi : Iterated numRelays numMessages inputs k s)
    (hp : Pushed numRelays numMessages (inputs k).received (mainTiming k (inputs k)) s t) :
    Iterated numRelays numMessages inputs (k + 1) t := by
  obtain ⟨v,hv,hsink⟩ := hp
  obtain ⟨hlength,hlat⟩ := hi.latencies
  obtain ⟨hvec,hreports⟩ := hi.waiting hk
  unfold push State.sink at hsink
  simp only [hvec, hreports, List.length_append, List.length_singleton, hlength,
    List.nil_append] at hsink
  have hpushed : t.pushed = s.pushed ++ [v] := by
    split at hsink <;> exact congrArg (fun x => x.2.2) hsink
  refine ⟨⟨by simp [hpushed, hlength],fun i hlt => ?_⟩,fun hlow => ?_,fun hfull => ?_⟩
  · rw [hpushed]
    rcases Nat.lt_succ_iff_lt_or_eq.mp hlt with hlt | rfl
    · rw [List.getElem?_append_left (by omega), hlat i hlt]
    · rw [hv, ← hlength, List.getElem?_concat_length]
  · rw [if_neg (by omega)] at hsink
    simp only [Prod.mk.injEq] at hsink
    exact ⟨hsink.1.trans hpushed.symm,hsink.2.1⟩
  · rw [if_pos hfull] at hsink
    simp only [Prod.mk.injEq] at hsink
    obtain ⟨r,hr,hperm⟩ := printStats_of_ne_nil (List.append_ne_nil_of_right_ne_nil s.pushed
      (List.cons_ne_nil v []))
    rw [hr] at hsink
    exact ⟨hsink.1,r,hsink.2.1,hpushed ▸ hperm⟩

theorem iterations {inputs : ℕ → CallInput} (hM : 0 < numMessages) {k : ℕ} (hk : k ≤ numMessages)
    {s : State}
    (h : (List.range k).foldlM (mainIteration numRelays numMessages inputs) init = some s) :
    Iterated numRelays numMessages inputs k s := by
  induction k generalizing s with
  | zero =>
    obtain rfl : init = s := by simpa using h
    exact ⟨⟨rfl,fun i hi => by omega⟩,fun _ => ⟨rfl,rfl⟩,fun hfull => by omega⟩
  | succ k ih =>
    rw [List.range_succ, List.foldlM_append] at h
    obtain ⟨u,hu,hlast⟩ := Option.bind_eq_some_iff.mp h
    have hprev := ih (by omega) hu
    simp only [List.foldlM_cons, List.foldlM_nil, mainIteration] at hlast
    rcases hc : clientBench numRelays numMessages (inputs k) (mainTiming k (inputs k)) u with ⟨t,r⟩
    rw [hc] at hlast
    cases r with
    | replied v =>
      obtain rfl : t = s := by simpa using hlast
      exact iterated_succ hk hprev (clientBench_pushed hc)
    | failed => simp at hlast
    | exited => simp at hlast

/-- What every call and the return of `main` guarantee. -/
structure Reported (numRelays numMessages : ℕ) (inputs : ℕ → CallInput) : Prop where
  /-- A call that returns `Ok` has pushed one latency, from the message's own send time. -/
  pushed : ∀ i t s u v, clientBench numRelays numMessages (inputs i) t s = (u,.replied v) →
    ∃ lat, latency numRelays (asI64 (inputs i).received) t.nanosec = some lat ∧
      u.pushed = s.pushed ++ [lat]
  /-- When `main` returns, the latencies of its messages have been reported. -/
  reported : ∀ s, main numRelays numMessages inputs = some s →
    Latencies numRelays inputs numMessages s.pushed ∧
    s.latencyVec = [] ∧ ∃ r, s.reports = [r] ∧ r.array.Perm s.pushed

theorem main_reported (numRelays : ℕ) {numMessages : ℕ} (hM : 0 < numMessages)
    (inputs : ℕ → CallInput) : Reported numRelays numMessages inputs where
  pushed i t s u v h := by
    obtain ⟨lat,hlat,hsink⟩ := clientBench_pushed h
    refine ⟨lat,hlat,?_⟩
    unfold push State.sink at hsink
    dsimp only at hsink
    split at hsink <;> exact congrArg (fun x => x.2.2) hsink
  reported s h := by
    have hall := iterations hM le_rfl h
    exact ⟨hall.latencies,hall.reported rfl⟩

/-- One message through one relay, sent at 5 and received at 25. -/
def oneMessage : CallInput := ⟨5,25,fun _ => .none⟩

theorem main_reported_oneMessage :
    ∃ s, main 1 1 (fun _ => oneMessage) = some s ∧ s.pushed = [10] ∧
      ∃ r, s.reports = [r] ∧ r.array.Perm [10] := by
  have hserve : serve 1 1 (fun _ => .none) 25 (port 0) =
      process (relayBench 0 (benchClient 1 (process (sinkBench 1 1 25)))) := by
    rw [serve_relay Nat.one_pos, remote_none]
    exact congrArg (fun f => process (relayBench 0 (benchClient 1 f))) serve_sink
  have hlatency : latency 1 (asI64 25) (asI64 5) = some 10 := by decide
  have hrun : (main 1 1 (fun _ => oneMessage)).map State.pushed = some [10] := by
    simp only [main, List.range_succ, List.range_zero, List.nil_append, List.foldlM_cons,
      mainIteration, clientBench, oneMessage, remote_none, hserve]
    simp [benchClient, process, processBench, relayBench, relayCopy, mainTiming, sinkBench,
      State.nextSequenceNumber, init, readReply, pushLatency, printStats, hlatency]
  obtain ⟨s,hs,hpushed⟩ := Option.map_eq_some_iff.mp hrun
  obtain ⟨_,_,hreport⟩ := (main_reported 1 Nat.one_pos (fun _ => oneMessage)).reported s hs
  exact ⟨s,hs,hpushed,hpushed ▸ hreport⟩

end RelayBench.ThriftRs
