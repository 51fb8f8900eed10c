import RelayBench.ThriftRs.Reporting

/-! # The Rust chain when nothing fails

Without a poisoned mutex and a broken connection every call is answered `Ok(0)` and pushes
its latency at the sink.
-/
namespace RelayBench.ThriftRs
open RemoteCall Function
variable {numRelays numMessages elapsed : ℕ}

/-- No mutex of the chain is poisoned. -/
structure Unpoisoned (s : State) : Prop where
  client : ∀ i, s.clientPoisoned i = false
  vec : s.vecPoisoned = false

theorem Unpoisoned.next {s : State} (h : Unpoisoned s) (hop : ℕ) :
    Unpoisoned (s.nextSequenceNumber hop) := ⟨h.client,h.vec⟩

theorem pushLatency_unpoisoned {s : State} (h : Unpoisoned s) (v : ℤ) :
    ∃ t, pushLatency numMessages v s = (t,.replied (.ok 0)) ∧ Unpoisoned t ∧
      t.sink = push numMessages v s.sink := by
  obtain ⟨r,hr,_⟩ := printStats_of_ne_nil (List.append_ne_nil_of_right_ne_nil s.latencyVec
    (List.cons_ne_nil v []))
  have hpush : ∃ t, pushLatency numMessages v s = (t,.replied (.ok 0)) ∧
      t.clientPoisoned = s.clientPoisoned ∧ t.vecPoisoned = false := by
    by_cases hfull : s.latencyVec.length + 1 = numMessages <;>
      simp [pushLatency, h.vec, hfull, hr]
  obtain ⟨t,ht,hclient,hvec⟩ := hpush
  exact ⟨t,ht,⟨fun i => by rw [hclient, h.client],hvec⟩,pushLatency_replied ht⟩

theorem benchClient_ok {hop : ℕ} {handler : Call Timing State (Except String ℤ)}
    {arg : Timing} {s t : State} {v : ℤ}
    (h : handler arg (s.nextSequenceNumber hop) = (t,.replied (.ok v))) :
    benchClient hop (remote .none (process handler)) arg s = (t,.replied v) := by
  simp only [benchClient, remote_none, process, if_true, processBench, h]
  simp [readReply]

/-- A call that pushes this latency and answers 0. -/
structure Pushes (numMessages : ℕ) (v : ℤ) (s t : State) (reply : Reply ℤ) : Prop where
  unpoisoned : Unpoisoned t
  sink : t.sink = push numMessages v s.sink
  reply_eq : reply = .replied 0

theorem chain_pushes {nanosec v : ℤ} (hv : latency numRelays (asI64 elapsed) nanosec = some v) :
    ∀ arg s, arg.nanosec = nanosec → Unpoisoned s →
      let r := benchClient 0 (chain link (process (sinkBench numRelays numMessages elapsed))
        (fun _ => .none) numRelays 0) arg s
      Pushes numMessages v s r.1 r.2 := by
  refine @chain_rule _ _ _ _ _ _ _ (fun i f => ∀ arg s, arg.nanosec = nanosec → Unpoisoned s →
    Pushes numMessages v s (benchClient i f arg s).1 (benchClient i f arg s).2) ?_ ?_
  · intro arg s harg hs
    obtain ⟨t,hpush,hgood,hsink⟩ := @pushLatency_unpoisoned numMessages _ (hs.next numRelays) v
    have hbench : sinkBench numRelays numMessages elapsed arg (s.nextSequenceNumber numRelays) =
        (t,.replied (.ok 0)) := by
      rw [sinkBench, harg, hv, Option.elim_some, hpush]
    rw [benchClient_ok hbench]
    exact ⟨hgood,hsink,rfl⟩
  · intro i hi next hnext arg s harg hs
    have hpushes := hnext (relayCopy i arg) (s.nextSequenceNumber i) harg (hs.next i)
    rcases hc : benchClient (i + 1) next (relayCopy i arg) (s.nextSequenceNumber i) with ⟨t,r⟩
    rw [hc] at hpushes
    obtain ⟨hgood,hsink,rfl⟩ := hpushes
    have hrelay : relayBench i (benchClient (i + 1) next) arg (s.nextSequenceNumber i) =
        (t,.replied (.ok 0)) := by
      rw [relayBench, (hs.next i).client i, if_neg Bool.false_ne_true, hc]
    rw [link, benchClient_ok hrelay]
    exact ⟨hgood,hsink,rfl⟩

theorem clientBench_pushes {sent : ℕ} {arg : Timing} {v : ℤ}
    (hv : latency numRelays (asI64 elapsed) arg.nanosec = some v) {s : State}
    (hs : Unpoisoned s) :
    let r := clientBench numRelays numMessages ⟨sent,elapsed,fun _ => .none⟩ arg s
    Pushes numMessages v s r.1 r.2 := by
  unfold clientBench
  rw [serve_chain]
  exact chain_pushes hv arg s rfl hs

end RelayBench.ThriftRs
