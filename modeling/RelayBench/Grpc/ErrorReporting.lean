import RelayBench.Grpc.Model

/-! # What the client learns of a failed hop

The services form a chain whose relays forward every request unchanged and answer OK
whatever happened to it, so the client sees the failures of its own call only.
-/
namespace RelayBench.Grpc
open RemoteCall Ports
variable {kNumRelays numMessages : ℕ} {faults : ℕ → Fault} {now : ℤ}

/-! ## The services form a chain -/

theorem serve_relay {id : ℕ} (hid : id < kNumRelays) :
    serve kNumRelays numMessages faults now (port id) =
      relayBench id (remote (faults (id + 1))
        (serve kNumRelays numMessages faults now (port (id + 1)))) := by
  have hport : port id + 1 = port (id + 1) := by
    unfold port
    omega
  have hlisten : listening kRelayPortStart kNumRelays (port id) = some (.relay id) :=
    listening_relay hid
  rw [serve]
  split
  · simp_all
  · rename_i id' h
    obtain rfl : id = id' := by simpa [hlisten] using h
    rw [hport]
  · simp_all

theorem serve_sink :
    serve kNumRelays numMessages faults now (port kNumRelays) =
      sinkBench kNumRelays numMessages now := by
  have hlisten : listening kRelayPortStart kNumRelays (port kNumRelays) = some .sink :=
    listening_sink
  rw [serve]
  split <;> simp_all

theorem serve_chain :
    remote (faults 0) (serve kNumRelays numMessages faults now 5000) =
      chain relayBench (sinkBench kNumRelays numMessages now) faults kNumRelays 0 :=
  @eq_chain _ _ _ _ _ _ _ (fun id => serve kNumRelays numMessages faults now (port id))
    serve_sink (fun _ hid => serve_relay hid)

theorem relayBench_forwards (id : ℕ) : Forwards State.data Timing.nanosec (relayBench id) := by
  intro next request s
  refine ⟨relayCopy id request,s,rfl,rfl,?_⟩
  unfold relayBench
  rcases next (relayCopy id request) s with ⟨t,r⟩
  cases r <;> simp

/-! ## Failures on the way -/

theorem chain_exits (request : Timing) (s : State) :
    (chain relayBench (sinkBench kNumRelays numMessages now) faults kNumRelays 0 request s).2 =
      .exited ↔ FromHop (· ≠ .lost) faults kNumRelays 0 ∧ numMessages ≤ s.data.length + 1 := by
  refine @chain_exited _ _ _ _ _ _ _ _ _ State.data Timing.nanosec
    (fun _ data => numMessages ≤ data.length + 1) ?_ (fun i _ => relayBench_forwards i) request s
  intro request s
  unfold sinkBench insertSample
  dsimp only
  rw [List.length_append, List.length_singleton]
  split <;> simp_all

/-! ## Error reporting -/

end RelayBench.Grpc
