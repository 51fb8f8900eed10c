import RelayBench.Library.Stages
import RelayBench.Psrv.Model

/-! # What every run of the service chain conserves

`Move` lists what a step can do, with services by number. At every service the requests
handled, in flight, running and dropped are those sent to it, and a relay sends on one
copy of each request it handles.
-/
namespace RelayBench.Psrv
open Execution Conservation Function
variable {kNumRelays numMessages : ℕ} {s t : State} {l : Label} {ls : List Label}

/-- A step of the chain, its guards explicit. -/
inductive Move (kNumRelays numMessages : ℕ) (s : State) : Label → State → Prop
  | send (now : ℤ) (hnext : s.next < numMessages) :
      Move kNumRelays numMessages s (.send now)
        { s.asyncSend 0 (serviceName 0) (clientRequest s.next now) with next := s.next + 1 }
  | take (i j : ℕ) (request : Timing) (hidle : s.callback i = none)
      (hrunning : i = kNumRelays → s.exited = false)
      (hrequest : (s.requests (serviceName i))[j]? = some request) :
      Move kNumRelays numMessages s (.take i j)
        { s with
          requests := update s.requests (serviceName i) ((s.requests (serviceName i)).eraseIdx j)
          callback := update s.callback i (some (.called request)) }
  | forward (i : ℕ) (request : Timing) (hi : i < kNumRelays)
      (hcalled : s.callback i = some (.called request)) :
      Move kNumRelays numMessages s (.forward i)
        { s.asyncSend (i + 1) (serviceName (i + 1)) (relayCopy i request) with
          callback := update s.callback i (some (.returned request.msgid))
          handled := update s.handled i (s.handled i ++ [request]) }
  | sample (now : ℤ) (request : Timing) (hcalled : s.callback kNumRelays = some (.called request))
      (hlow : s.data.length + 1 < numMessages) :
      Move kNumRelays numMessages s (.record now)
        { s with
          data := s.data ++ [nanosecPerHop kNumRelays now request.nanosec]
          handled := update s.handled kNumRelays (s.handled kNumRelays ++ [request])
          samples := s.samples ++ [(request,now)]
          callback := update s.callback kNumRelays (some (.returned request.msgid)) }
  | report (now : ℤ) (request : Timing) (r : Report)
      (hcalled : s.callback kNumRelays = some (.called request))
      (hfull : numMessages ≤ s.data.length + 1)
      (hprint : printStats (s.data ++ [nanosecPerHop kNumRelays now request.nanosec]) = some r) :
      Move kNumRelays numMessages s (.record now)
        { s with
          data := s.data ++ [nanosecPerHop kNumRelays now request.nanosec]
          handled := update s.handled kNumRelays (s.handled kNumRelays ++ [request])
          samples := s.samples ++ [(request,now)]
          reports := s.reports ++ [r]
          exited := true
          callback := update s.callback kNumRelays none }
  | respond (i : ℕ) (ack : ℤ) (hreturned : s.callback i = some (.returned ack)) :
      Move kNumRelays numMessages s (.respond i)
        { s with
          callback := update s.callback i none
          responses := update s.responses i (s.responses i ++ [ack]) }
  | takeResponse (k : ℕ) (rest : List ℤ) :
      Move kNumRelays numMessages s (.takeResponse k)
        { s with
          responses := update s.responses k rest
          pending := update s.pending k (s.pending k - 1) }
  | drop (i j : ℕ) (request : Timing)
      (hrequest : (s.requests (serviceName i))[j]? = some request) :
      Move kNumRelays numMessages s (.drop i j)
        { s with
          requests := update s.requests (serviceName i) ((s.requests (serviceName i)).eraseIdx j)
          dropped := update s.dropped i (s.dropped i ++ [request]) }

theorem step_move (h : step kNumRelays numMessages s l = some t) :
    Move kNumRelays numMessages s l t := by
  cases l with
  | send now =>
    simp only [step, clients_getElem? (Nat.zero_le _), Option.ite_none_right_eq_some,
      Option.some.injEq] at h
    exact h.2 ▸ .send now h.1
  | take i j =>
    cases hnode : serviceNode kNumRelays i with
    | none => simp [step, hnode] at h
    | some node =>
      cases hidle : s.callback i with
      | some c => simp [step, hnode, hidle] at h
      | none =>
        cases hrequest : (s.requests (serviceName i))[j]? with
        | none => simp [step, hnode, hidle, hrequest] at h
        | some request =>
          simp only [step, hnode, hidle, hrequest, Option.ite_none_right_eq_some,
            Option.some.injEq] at h
          exact h.2 ▸ .take i j request hidle (by simpa using h.1.2) hrequest
  | forward i =>
    cases hcalled : s.callback i with
    | none => simp [step, hcalled] at h
    | some c =>
      cases c with
      | returned ack => simp [step, hcalled] at h
      | called request =>
        by_cases hi : i < kNumRelays
        · simp only [step, hcalled, clients_getElem? hi, if_pos hi, Option.some.injEq] at h
          exact h ▸ .forward i request hi hcalled
        · cases hc : (clients kNumRelays)[i + 1]? <;> simp [step, hcalled, hc, hi] at h
  | record now =>
    cases hcalled : s.callback kNumRelays with
    | none => simp [step, hcalled] at h
    | some c =>
      cases c with
      | returned ack => simp [step, hcalled] at h
      | called request =>
        simp only [step, hcalled, State.sinkCallback, List.length_append,
          List.length_singleton] at h
        by_cases hfull : numMessages ≤ s.data.length + 1
        · rw [if_pos hfull] at h
          obtain ⟨r,hr,rfl⟩ := Option.map_eq_some_iff.mp h
          exact .report now request r hcalled hfull hr
        · rw [if_neg hfull] at h
          cases h
          exact .sample now request hcalled (by omega)
  | respond i =>
    cases hcb : s.callback i with
    | none => simp [step, hcb] at h
    | some c =>
      cases c with
      | called request => simp [step, hcb] at h
      | returned ack =>
        simp only [step, hcb, Option.some.injEq] at h
        exact h ▸ .respond i ack hcb
  | takeResponse k =>
    cases hclient : (clients kNumRelays)[k]? with
    | none => simp [step, hclient] at h
    | some client =>
      cases hresponses : s.responses k with
      | nil => simp [step, hclient, hresponses] at h
      | cons ack rest =>
        simp only [step, hclient, hresponses, Option.ite_none_right_eq_some,
          Option.some.injEq] at h
        exact h.2 ▸ .takeResponse k rest
  | drop i j =>
    cases hrequest : (s.requests (serviceName i))[j]? with
    | none => simp [step, hrequest] at h
    | some request =>
      simp only [step, hrequest, Option.some.injEq] at h
      exact h ▸ .drop i j request hrequest

/-! ## Requests at one service -/

/-- The request a callback was given and has not handled yet. -/
def called : Option Callback → List Timing
  | some (.called request) => [request]
  | _ => []

/-- Everything sent to service `i` that it has not handled. -/
def unhandled (s : State) (i : ℕ) : List Timing :=
  s.requests (serviceName i) ++ (called (s.callback i) ++ s.dropped i)

def Conserved (s : State) : Prop := ∀ i, (s.handled i ++ unhandled s i).Perm (s.sent i)

def Forwarded (kNumRelays : ℕ) (s : State) : Prop :=
  ∀ i < kNumRelays, s.sent (i + 1) = (s.handled i).map (relayCopy i)

theorem count_eraseIdx {requests : List Timing} {j : ℕ} {request : Timing}
    (h : requests[j]? = some request) (m : Timing) :
    (requests.eraseIdx j).count m + [request].count m = requests.count m := by
  obtain ⟨hj,rfl⟩ := List.getElem?_eq_some_iff.mp h
  have hperm := (List.getElem_cons_eraseIdx_perm hj).count_eq m
  rw [← hperm, ← List.count_append]
  exact List.perm_append_comm.count_eq m

theorem conserved_iff : Conserved s ↔ ∀ i m, (s.handled i).count m +
    (s.requests (serviceName i)).count m + (called (s.callback i)).count m +
    (s.dropped i).count m = (s.sent i).count m := by
  simp only [Conserved, unhandled, List.perm_iff_count, List.count_append, Nat.add_assoc]

theorem step_conserved (hc : Conserved s) (h : Move kNumRelays numMessages s l t) :
    Conserved t := by
  rw [conserved_iff] at *
  intro k m
  have hk := hc k m
  cases h with
  | send now =>
    simp only [State.asyncSend, update_apply, serviceName_injective.eq_iff]
    by_cases h0 : k = 0
    · subst h0
      simp only [if_true, List.count_append]
      omega
    · simpa only [h0, if_false] using hk
  | take i j request hidle hrunning hrequest =>
    simp only [update_apply, serviceName_injective.eq_iff]
    by_cases hi : k = i
    · subst hi
      have herase := count_eraseIdx hrequest m
      simp only [hidle, called, List.count_nil] at hk
      simp only [if_true, called]
      omega
    · simpa only [hi, if_false] using hk
  | forward i request hi hcalled =>
    simp only [State.asyncSend, update_apply, serviceName_injective.eq_iff]
    by_cases hki : k = i
    · subst hki
      simp only [hcalled, called] at hk
      simp only [if_true, Nat.ne_add_one, if_false, called, List.count_append, List.count_nil]
      omega
    · by_cases hnext : k = i + 1
      · subst hnext
        simp only [hki, if_true, if_false, List.count_append]
        omega
      · simpa only [hki, hnext, if_false] using hk
  | sample now request hcalled hlow =>
    by_cases hN : k = kNumRelays
    · subst hN
      simp only [hcalled, called] at hk
      simp only [update_self, called, List.count_append, List.count_nil]
      omega
    · simpa only [update_of_ne hN] using hk
  | report now request r hcalled hfull hprint =>
    by_cases hN : k = kNumRelays
    · subst hN
      simp only [hcalled, called] at hk
      simp only [update_self, called, List.count_append, List.count_nil]
      omega
    · simpa only [update_of_ne hN] using hk
  | respond i ack hreturned =>
    by_cases hi : k = i
    · subst hi
      simpa only [update_self, hreturned, called] using hk
    · simpa only [update_of_ne hi] using hk
  | takeResponse i rest => exact hk
  | drop i j request hrequest =>
    simp only [update_apply, serviceName_injective.eq_iff]
    by_cases hi : k = i
    · subst hi
      have herase := count_eraseIdx hrequest m
      simp only [if_true, List.count_append]
      omega
    · simpa only [hi, if_false] using hk

theorem step_forwarded (hf : Forwarded kNumRelays s)
    (h : Move kNumRelays numMessages s l t) : Forwarded kNumRelays t := by
  intro k hk
  have hkf := hf k hk
  cases h with
  | send now => exact hkf
  | take i j request hidle hrunning hrequest => exact hkf
  | forward i request hi hcalled =>
    simp only [State.asyncSend, update_apply, Nat.add_right_cancel_iff]
    by_cases hki : k = i
    · subst hki
      simp [hkf]
    · simpa only [hki, if_false] using hkf
  | sample now request hcalled hlow =>
    simpa only [update_of_ne hk.ne] using hkf
  | report now request r hcalled hfull hprint =>
    simpa only [update_of_ne hk.ne] using hkf
  | respond i ack hreturned => exact hkf
  | takeResponse i rest => exact hkf
  | drop i j request hrequest => exact hkf

/-! ## The client and the sink -/

/-- The clock readings of the client's sends. -/
def sendTimes : List Label → List ℤ :=
  List.filterMap (fun
    | .send now => some now
    | _ => none)

/-- The client's loop: request `i` carries `i` and the time of its own send. -/
def ClientSent (numMessages : ℕ) (ls : List Label) (s : State) : Prop :=
  s.sent 0 = (sendTimes ls).mapIdx clientRequest ∧
    s.next = (sendTimes ls).length ∧ s.next ≤ numMessages

theorem step_clientSent (hc : ClientSent numMessages ls s)
    (h : Move kNumRelays numMessages s l t) : ClientSent numMessages (ls ++ [l]) t := by
  obtain ⟨hsent,hnext,hle⟩ := hc
  unfold ClientSent sendTimes at *
  rw [List.filterMap_append]
  cases h with
  | send now hlow =>
    refine ⟨?_,?_,hlow⟩
    · simp [State.asyncSend, hsent, hnext, List.mapIdx_append]
    · simp [hnext]
  | _ => simpa [State.asyncSend] using ⟨hsent,hnext,hle⟩

/-- The samples are of the requests the sink handled; there is one report after the exit,
over all of them, and none before. -/
structure SinkRecorded (kNumRelays numMessages : ℕ) (s : State) : Prop where
  handled : s.samples.map Prod.fst = s.handled kNumRelays
  data : s.data = s.samples.map (fun p => nanosecPerHop kNumRelays p.2 p.1.nanosec)
  running : s.exited = false → s.reports = []
  exited : s.exited = true → called (s.callback kNumRelays) = [] ∧
    numMessages ≤ s.data.length ∧ ∃ r, s.reports = [r] ∧ r.array.Perm s.data

theorem step_sinkRecorded (hr : SinkRecorded kNumRelays numMessages s)
    (h : Move kNumRelays numMessages s l t) : SinkRecorded kNumRelays numMessages t := by
  obtain ⟨hhandled,hdata,hrunning,hexited⟩ := hr
  cases h with
  | send now => exact ⟨hhandled,hdata,hrunning,hexited⟩
  | take i j request hidle hrun hrequest =>
    refine ⟨hhandled,hdata,hrunning,fun he => ?_⟩
    have hi : kNumRelays ≠ i := by
      rintro rfl
      simp [hrun rfl] at he
    simpa only [update_of_ne hi] using hexited he
  | forward i request hi hcalled =>
    refine ⟨?_,hdata,hrunning,fun he => ?_⟩
    · simpa only [State.asyncSend, update_of_ne hi.ne'] using hhandled
    · simpa only [State.asyncSend, update_of_ne hi.ne'] using hexited he
  | sample now request hcalled hlow =>
    have hout : s.exited = false := by
      by_contra he
      simpa [hcalled, called] using (hexited (by simpa using he)).1
    refine ⟨by simp [hhandled],by simp [hdata],hrunning,fun he => ?_⟩
    simp [hout] at he
  | report now request r hcalled hfull hprint =>
    have hout : s.exited = false := by
      by_contra he
      simpa [hcalled, called] using (hexited (by simpa using he)).1
    refine ⟨by simp [hhandled],by simp [hdata],fun he => absurd he (by simp),fun _ => ?_⟩
    refine ⟨by simp [called],by simpa using hfull,r,by simp [hrunning hout],?_⟩
    exact printStats_array hprint
  | respond i ack hreturned =>
    refine ⟨hhandled,hdata,hrunning,fun he => ?_⟩
    by_cases hi : kNumRelays = i
    · subst hi
      simpa [called] using (hexited he).2
    · simpa only [update_of_ne hi] using hexited he
  | takeResponse i rest => exact ⟨hhandled,hdata,hrunning,hexited⟩
  | drop i j request hrequest => exact ⟨hhandled,hdata,hrunning,hexited⟩

/-- The clock readings of the sink's callbacks. -/
def recordTimes : List Label → List ℤ :=
  List.filterMap (fun
    | .record now => some now
    | _ => none)

theorem step_recordTimes (hs : s.samples.map Prod.snd = recordTimes ls)
    (h : Move kNumRelays numMessages s l t) :
    t.samples.map Prod.snd = recordTimes (ls ++ [l]) := by
  unfold recordTimes at *
  rw [List.filterMap_append, ← hs]
  cases h <;> simp [State.asyncSend]

/-! ## Runs -/

theorem exec_conserved (h : exec (step kNumRelays numMessages) init ls = some s) :
    Conserved s := by
  refine exec_invariant ?_ (fun t l u hi hs => step_conserved hi (step_move hs)) h
  intro i
  simp [init, unhandled, called]

theorem exec_forwarded (h : exec (step kNumRelays numMessages) init ls = some s) :
    Forwarded kNumRelays s :=
  exec_invariant (fun _ _ => rfl) (fun _ _ _ hi hs => step_forwarded hi (step_move hs)) h

theorem exec_clientSent (h : exec (step kNumRelays numMessages) init ls = some s) :
    ClientSent numMessages ls s :=
  @exec_history _ _ _ (ClientSent numMessages) init ⟨rfl,rfl,Nat.zero_le _⟩
    (fun _ _ _ _ _ hi hs => step_clientSent hi (step_move hs)) ls s h

theorem exec_sinkRecorded (h : exec (step kNumRelays numMessages) init ls = some s) :
    SinkRecorded kNumRelays numMessages s := by
  refine exec_invariant ?_ (fun t l u hi hs => step_sinkRecorded hi (step_move hs)) h
  exact ⟨rfl,rfl,fun _ => rfl,fun he => absurd he (by simp [init])⟩

theorem exec_recordTimes (h : exec (step kNumRelays numMessages) init ls = some s) :
    s.samples.map Prod.snd = recordTimes ls :=
  @exec_history _ _ _ (fun ls s => s.samples.map Prod.snd = recordTimes ls) init rfl
    (fun _ _ _ _ _ hi hs => step_recordTimes hi (step_move hs)) ls s h

end RelayBench.Psrv
