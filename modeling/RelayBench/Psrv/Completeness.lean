import RelayBench.Psrv.Conservation

/-! # A printed report is complete

The services are stages that hand on what they handle, so the sink's count reaches the
number of requests only when nothing was left or dropped at any hop.
-/
namespace RelayBench.Psrv
open Execution Conservation Function
variable {kNumRelays numMessages : ℕ} {s t : State} {l : Label} {ls : List Label}

/-- What every hop keeps of a request: its number and the time of its send. -/
def stamp (request : Timing) : ℤ × ℤ := (request.msgid,request.nanosec)

theorem stages (h : exec (step kNumRelays numMessages) init ls = some s) :
    Stages (fun i => (s.sent i).map stamp) (fun i => (s.handled i).map stamp)
      (fun i => (unhandled s i).map stamp) kNumRelays where
  split i _ := by
    rw [← List.map_append]
    exact (exec_conserved h i).map stamp
  next i hi := by
    rw [exec_forwarded h i hi, List.map_map]
    rfl

/-- The stamps the client gave to its requests. -/
def clientStamps (ls : List Label) : List (ℤ × ℤ) :=
  (sendTimes ls).mapIdx (fun i now => ((i : ℤ),now))

theorem sent_stamps (h : exec (step kNumRelays numMessages) init ls = some s) :
    (s.sent 0).map stamp = clientStamps ls := by
  rw [(exec_clientSent h).1]
  simp [clientStamps, List.mapIdx_eq_zipIdx_map, stamp, clientRequest, Function.comp_def]

theorem clientStamps_ids (ls : List Label) :
    (clientStamps ls).map Prod.fst = (List.range (sendTimes ls).length).map (fun i : ℕ => (i : ℤ)) := by
  unfold clientStamps
  apply List.ext_getElem
  · simp
  · intro i hi hi'
    simp

theorem data_length (h : exec (step kNumRelays numMessages) init ls = some s) :
    s.data.length = (s.handled kNumRelays).length := by
  rw [(exec_sinkRecorded h).data, ← (exec_sinkRecorded h).handled]
  simp

theorem data_length_le (h : exec (step kNumRelays numMessages) init ls = some s) :
    s.data.length ≤ (sendTimes ls).length := by
  have hle := (stages h).handled_length_le
  rw [sent_stamps h] at hle
  simpa [data_length h, clientStamps] using hle

/-- What a report guarantees about the whole run. -/
structure Complete (kNumRelays numMessages : ℕ) (ls : List Label) (s : State) : Prop where
  sent : (sendTimes ls).length = numMessages
  undropped : ∀ i ≤ kNumRelays, s.dropped i = []
  handled : ∀ i ≤ kNumRelays, ((s.handled i).map Timing.msgid).Perm
    ((List.range numMessages).map (fun j : ℕ => (j : ℤ)))
  /-- One sample for each request, with the request's own send time and the sink's clock. -/
  samples : (s.samples.map (fun p => stamp p.1)).Perm (clientStamps ls) ∧
    s.samples.map Prod.snd = recordTimes ls
  data : s.data = s.samples.map (fun p => (p.2 - p.1.nanosec).tdiv (kNumRelays + 1))
  report : ∃ r, s.reports = [r] ∧ r.array.Perm s.data

/-- Over every interleaving, reordering and dropping of requests, the sink holds at most as
many samples as the client's loop sends, and its report is complete. -/
theorem report_complete (kNumRelays numMessages : ℕ) {ls : List Label} {s : State}
    (h : exec (step kNumRelays numMessages) init ls = some s) :
    s.data.length ≤ numMessages ∧
      (s.reports ≠ [] → Complete kNumRelays numMessages ls s) := by
  have hstages := stages h
  have hsink := exec_sinkRecorded h
  obtain ⟨_,hnext,hle⟩ := exec_clientSent h
  have hdata := data_length_le h
  refine ⟨by omega,fun hreports => ?_⟩
  have hexited : s.exited = true := by
    by_contra hrun
    exact hreports (hsink.running (by simpa using hrun))
  obtain ⟨_,hfull,hreport⟩ := hsink.exited hexited
  have hsent : (sendTimes ls).length = numMessages := by omega
  have hrest {i : ℕ} (hi : i ≤ kNumRelays) : unhandled s i = [] := by
    refine List.map_eq_nil_iff.mp (hstages.rest_eq_nil ?_ hi)
    rw [sent_stamps h]
    simpa [clientStamps, ← data_length h, hsent] using hfull
  have hstamps {i : ℕ} (hi : i ≤ kNumRelays) :
      ((s.handled i).map stamp).Perm (clientStamps ls) := by
    rw [← sent_stamps h]
    refine (hstages.mono hi).handled_perm (fun k hk => ?_)
    simp only [hrest (hk.trans hi), List.map_nil]
  refine ⟨hsent,fun i hi => ?_,fun i hi => ?_,⟨?_,exec_recordTimes h⟩,hsink.data,hreport⟩
  · have hnil := hrest hi
    simp only [unhandled, List.append_eq_nil_iff] at hnil
    exact hnil.2.2
  · have hids := (hstamps hi).map Prod.fst
    rwa [clientStamps_ids, hsent, List.map_map] at hids
  · have hlast := hstamps le_rfl
    rwa [← hsink.handled, List.map_map] at hlast

/-- One request through one relay, sent at 5 and sampled at 25. -/
def oneRequest : List Label := [.send 5,.take 0 0,.forward 0,.take 1 0,.record 25]

theorem report_complete_oneRequest :
    ∃ s, exec (step 1 1) init oneRequest = some s ∧ s.reports ≠ [] ∧
      Complete 1 1 oneRequest s := by
  have hrun : (exec (step 1 1) init oneRequest).map State.reports = some [⟨[10],0,0⟩] := by
    simp [oneRequest, step, init, clients, serviceNode, executorNodes, State.asyncSend,
      State.sinkCallback, nanosecPerHop, clientRequest, relayCopy, serviceName, printStats]
  obtain ⟨s,hs,hreports⟩ := Option.map_eq_some_iff.mp hrun
  have hne : s.reports ≠ [] := by simp [hreports]
  exact ⟨s,hs,hne,(report_complete 1 1 hs).2 hne⟩

end RelayBench.Psrv
