import RelayBench.Psrv.Completeness

/-! # The clients' pending requests

The executor is given the service nodes and not one client node, so it takes no response:
a client's pending table holds every request the client has ever sent. Once everything is
answered and the executor has nothing to run, each of the `kNumRelays + 1` clients holds one
entry for every request of `client_thread`.
-/
namespace RelayBench.Psrv
open Execution Conservation Function
variable {kNumRelays numMessages : ℕ} {s t : State} {l : Label} {ls : List Label}

/-! ## The executor takes no response -/

theorem clientNode_not_mem (kNumRelays k : ℕ) :
    ("srv_client_" ++ toString k) ∉ executorNodes kNumRelays := by
  intro h
  rcases List.mem_append.mp h with hrelay | hsink
  · obtain ⟨i,_,hi⟩ := List.mem_map.mp hrelay
    have hchars := congrArg String.toList hi
    simp at hchars
  · have hchars := congrArg String.toList (List.mem_singleton.mp hsink)
    simp at hchars

theorem takeResponse_disabled (kNumRelays numMessages : ℕ) (s : State) (k : ℕ) :
    step kNumRelays numMessages s (.takeResponse k) = none := by
  by_cases hk : k ≤ kNumRelays
  · cases hresponses : s.responses k with
    | nil => simp [step, clients_getElem? hk, hresponses]
    | cons ack rest =>
      simp only [step, clients_getElem? hk, hresponses]
      exact if_neg (clientNode_not_mem kNumRelays k)
  · have hclient : (clients kNumRelays)[k]? = none := by simp [clients]; omega
    simp [step, hclient]

theorem step_pending (hp : ∀ k, s.pending k = (s.sent k).length)
    (h : step kNumRelays numMessages s l = some t) : ∀ k, t.pending k = (t.sent k).length := by
  intro k
  have hmove := step_move h
  cases hmove with
  | send now =>
    by_cases hk : k = 0
    · subst hk
      simp [State.asyncSend, hp]
    · simpa only [State.asyncSend, update_of_ne hk] using hp k
  | forward i request hi hcalled =>
    by_cases hk : k = i + 1
    · subst hk
      simp [State.asyncSend, hp]
    · simpa only [State.asyncSend, update_of_ne hk] using hp k
  | takeResponse i rest => simp [takeResponse_disabled] at h
  | _ => exact hp k

/-- No pending entry is ever removed. -/
theorem exec_pending (h : exec (step kNumRelays numMessages) init ls = some s) :
    ∀ k, s.pending k = (s.sent k).length :=
  exec_invariant (fun _ => rfl) (fun _ _ _ hi hs => step_pending hi hs) h

/-! ## Answers -/

/-- How many responses service `i` has sent. -/
def answers (i : ℕ) (ls : List Label) : ℕ := ls.count (.respond i)

theorem answers_snoc (i : ℕ) (ls : List Label) (l : Label) :
    answers i (ls ++ [l]) = answers i ls + if l = .respond i then 1 else 0 := by
  unfold answers
  rw [List.count_append, List.count_singleton]
  simp

/-- The answer a returned callback still has to send. -/
def unanswered : Option Callback → ℕ
  | some (.returned _) => 1
  | _ => 0

theorem step_answers (ha : ∀ i, answers i ls + unanswered (s.callback i) ≤ (s.handled i).length)
    (h : Move kNumRelays numMessages s l t) (k : ℕ) :
    answers k (ls ++ [l]) + unanswered (t.callback k) ≤ (t.handled k).length := by
  have hk := ha k
  rw [answers_snoc]
  cases h with
  | send now => simpa [State.asyncSend] using hk
  | take i j request hidle =>
    by_cases hi : k = i
    · subst hi
      rw [hidle] at hk
      simpa [unanswered] using hk
    · simpa [update_of_ne hi] using hk
  | forward i request hlow hcalled =>
    by_cases hi : k = i
    · subst hi
      rw [hcalled] at hk
      simpa [unanswered, State.asyncSend] using hk
    · simpa [State.asyncSend, update_of_ne hi] using hk
  | sample now request hcalled =>
    by_cases hi : k = kNumRelays
    · subst hi
      rw [hcalled] at hk
      simpa [unanswered] using hk
    · simpa [update_of_ne hi] using hk
  | report now request r hcalled =>
    by_cases hi : k = kNumRelays
    · subst hi
      rw [hcalled] at hk
      simp only [unanswered] at hk
      simp [unanswered]
      omega
    · simpa [update_of_ne hi] using hk
  | respond i ack hreturned =>
    by_cases hi : k = i
    · subst hi
      rw [hreturned] at hk
      simpa [unanswered] using hk
    · simpa [update_of_ne hi, Ne.symm hi] using hk
  | takeResponse i rest => simpa using hk
  | drop i j request hrequest => simpa using hk

theorem exec_answers (h : exec (step kNumRelays numMessages) init ls = some s) (i : ℕ) :
    answers i ls ≤ (s.handled i).length := by
  have hle := @exec_history _ _ _
    (fun ls s => ∀ i, answers i ls + unanswered (s.callback i) ≤ (s.handled i).length) init
    (fun _ => by simp [answers, unanswered, init])
    (fun _ _ _ _ _ hi hs => step_answers hi (step_move hs)) ls s h i
  omega

/-! ## Settled states -/

/-- The steps of the executor. -/
def Executed : Label → Prop
  | .send _ | .drop _ _ => False
  | _ => True

/-- Every sent request has been answered, and the executor has nothing left to run. -/
structure Settled (kNumRelays numMessages : ℕ) (ls : List Label) (s : State) : Prop where
  answered : ∀ i ≤ kNumRelays, answers i ls = (s.sent i).length
  idle : ∀ l, Executed l → step kNumRelays numMessages s l = none

/-- Where everything is answered, every client has sent as much as the client thread. -/
theorem Settled.sent_length (hs : Settled kNumRelays numMessages ls s)
    (h : exec (step kNumRelays numMessages) init ls = some s) {k : ℕ} (hk : k ≤ kNumRelays) :
    (s.sent k).length = (sendTimes ls).length := by
  induction k with
  | zero => simp [(exec_clientSent h).1]
  | succ k ih =>
    have hsplit := ((stages h).split k (by omega)).length_eq
    have hnext := ((stages h).next k hk).length_eq
    have hanswered := hs.answered k (by omega)
    have hhandled := exec_answers h k
    simp only [List.length_append, List.length_map] at hsplit hnext
    have hlow := ih (by omega)
    omega

theorem sendTimes_eq_nil : sendTimes ls = [] ↔ ∀ now, Label.send now ∉ ls := by
  unfold sendTimes
  rw [List.filterMap_eq_nil_iff]
  constructor
  · intro h now hmem
    exact absurd (h _ hmem) (by simp)
  · intro h l hl
    cases l with
    | send now => exact absurd hl (h now)
    | _ => rfl

/-- In a settled state a client's pending table is empty only if no request was ever sent. -/
theorem pending_eq_zero_iff (kNumRelays numMessages : ℕ) {ls : List Label} {s : State}
    (h : exec (step kNumRelays numMessages) init ls = some s)
    (hsettled : Settled kNumRelays numMessages ls s) :
    ∀ k ≤ kNumRelays, s.pending k = 0 ↔ ∀ now, Label.send now ∉ ls := by
  intro k hk
  rw [exec_pending h, hsettled.sent_length h hk, List.length_eq_zero_iff, sendTimes_eq_nil]

/-! ## One request through the whole chain -/

/-- The request as service `i` receives it. -/
def atHop (now : ℤ) : ℕ → Timing
  | 0 => clientRequest 0 now
  | i + 1 => relayCopy i (atHop now i)

/-- Service `i` takes the only request it has been sent, runs and answers. -/
def relayLabels (i : ℕ) : List Label := [.take i 0,.forward i,.respond i]

def chainLabels (now : ℤ) (i : ℕ) : List Label :=
  .send now :: (List.range i).flatMap relayLabels

/-- The only request is on its way to service `i`. -/
structure AtService (now : ℤ) (i : ℕ) (s : State) : Prop where
  requests : ∀ k, s.requests (serviceName k) = if k = i then [atHop now i] else []
  callback : ∀ k, s.callback k = none
  sent : ∀ k, (s.sent k).length = if k ≤ i then 1 else 0
  data : s.data = []
  exited : s.exited = false

theorem step_send (now : ℤ) (hnext : s.next < numMessages) :
    step kNumRelays numMessages s (.send now) =
      some { s.asyncSend 0 (serviceName 0) (clientRequest s.next now) with next := s.next + 1 } := by
  simp [step, clients_getElem? (Nat.zero_le kNumRelays), hnext]

theorem step_take {i : ℕ} {request : Timing} {rest : List Timing} (hi : i ≤ kNumRelays)
    (hidle : s.callback i = none) (hrunning : s.exited = false)
    (hrequests : s.requests (serviceName i) = request :: rest) :
    step kNumRelays numMessages s (.take i 0) = some { s with
      requests := update s.requests (serviceName i) rest
      callback := update s.callback i (some (.called request)) } := by
  obtain ⟨node,hnode⟩ : ∃ node, serviceNode kNumRelays i = some node := by
    rcases hi.lt_or_eq with hlt | heq
    · exact ⟨_,if_pos hlt⟩
    · exact ⟨"srv_sink",by simp [serviceNode, heq]⟩
  simp [step, hnode, hidle, hrequests, hrunning, (serviceNode_mem hnode).2]

theorem step_forward {i : ℕ} {request : Timing} (hi : i < kNumRelays)
    (hcalled : s.callback i = some (.called request)) :
    step kNumRelays numMessages s (.forward i) =
      some { s.asyncSend (i + 1) (serviceName (i + 1)) (relayCopy i request) with
        callback := update s.callback i (some (.returned request.msgid))
        handled := update s.handled i (s.handled i ++ [request]) } := by
  simp [step, hcalled, clients_getElem? hi, hi]

theorem step_sample {request : Timing} (now : ℤ)
    (hcalled : s.callback kNumRelays = some (.called request))
    (hlow : s.data.length + 1 < numMessages) :
    step kNumRelays numMessages s (.record now) = some { s with
      data := s.data ++ [nanosecPerHop kNumRelays now request.nanosec]
      handled := update s.handled kNumRelays (s.handled kNumRelays ++ [request])
      samples := s.samples ++ [(request,now)]
      callback := update s.callback kNumRelays (some (.returned request.msgid)) } := by
  simp [step, hcalled, State.sinkCallback, hlow]

theorem step_respond {i : ℕ} {ack : ℤ} (hreturned : s.callback i = some (.returned ack)) :
    step kNumRelays numMessages s (.respond i) = some { s with
      callback := update s.callback i none
      responses := update s.responses i (s.responses i ++ [ack]) } := by
  simp [step, hreturned]

theorem send_atService (now : ℤ) (hM : 0 < numMessages) :
    ∃ s, step kNumRelays numMessages init (.send now) = some s ∧ AtService now 0 s := by
  refine ⟨_,step_send now hM,?_,fun _ => rfl,fun k => ?_,rfl,rfl⟩
  · intro k
    by_cases hk : k = 0 <;>
      simp [State.asyncSend, init, atHop, serviceName_injective.eq_iff, hk]
  · by_cases hk : k = 0 <;> simp [State.asyncSend, init, hk]

theorem relay_atService {now : ℤ} {i : ℕ} (hi : i < kNumRelays) (hs : AtService now i s) :
    ∃ t, exec (step kNumRelays numMessages) s (relayLabels i) = some t ∧
      AtService now (i + 1) t := by
  have hrequests : s.requests (serviceName i) = [atHop now i] := by simp [hs.requests]
  have htake := @step_take kNumRelays numMessages s i _ _ hi.le (hs.callback i) hs.exited hrequests
  refine ⟨_,exec_step htake (exec_step (step_forward hi (update_self _ _ _))
    (exec_step (step_respond (update_self _ _ _)) rfl)),?_⟩
  refine ⟨fun k => ?_,fun k => ?_,fun k => ?_,hs.data,hs.exited⟩
  · simp only [State.asyncSend, update_apply, serviceName_injective.eq_iff, hs.requests]
    by_cases hk : k = i + 1
    · simp [hk, atHop]
    · by_cases hki : k = i <;> simp [hk, hki]
  · simp only [update_apply, hs.callback]
    by_cases hk : k = i <;> simp [hk]
  · simp only [State.asyncSend, update_apply]
    by_cases hk : k = i + 1
    · subst hk
      simp [hs.sent]
    · have hle : k ≤ i + 1 ↔ k ≤ i := by omega
      simp only [hk, if_false, hs.sent, hle]

theorem chainLabels_succ (now : ℤ) (i : ℕ) :
    chainLabels now (i + 1) = chainLabels now i ++ relayLabels i := by
  simp [chainLabels, List.range_succ]

theorem chain_atService (now : ℤ) (hM : 0 < numMessages) {i : ℕ} (hi : i ≤ kNumRelays) :
    ∃ s, exec (step kNumRelays numMessages) init (chainLabels now i) = some s ∧
      AtService now i s := by
  induction i with
  | zero =>
    obtain ⟨s,hsend,hs⟩ := @send_atService kNumRelays numMessages now hM
    exact ⟨s,exec_step hsend rfl,hs⟩
  | succ i ih =>
    obtain ⟨s,hchain,hs⟩ := ih (by omega)
    obtain ⟨t,hrelay,ht⟩ := @relay_atService kNumRelays numMessages s now i hi hs
    refine ⟨t,?_,ht⟩
    rw [chainLabels_succ]
    exact exec_trans hchain hrelay

/-- The sink's part of the run: it samples the request and answers. -/
def sinkLabels (kNumRelays : ℕ) (now : ℤ) : List Label :=
  [.take kNumRelays 0,.record now,.respond kNumRelays]

theorem answers_chain (now : ℤ) (i n : ℕ) :
    answers i (chainLabels now n) = if i < n then 1 else 0 := by
  induction n with
  | zero => simp [chainLabels, answers]
  | succ n ih =>
    have hrelay : answers i (relayLabels n) = if n = i then 1 else 0 := by
      by_cases hni : n = i <;> simp [answers, relayLabels, hni]
    have hadd : answers i (chainLabels now (n + 1)) =
        answers i (chainLabels now n) + answers i (relayLabels n) := by
      rw [chainLabels_succ]
      exact List.count_append
    rw [hadd, ih, hrelay]
    split_ifs <;> omega

theorem answers_sink (now : ℤ) (i : ℕ) :
    answers i (sinkLabels kNumRelays now) = if kNumRelays = i then 1 else 0 := by
  by_cases hi : kNumRelays = i <;> simp [answers, sinkLabels, hi]

theorem idle_of_empty (hrequests : ∀ k, s.requests (serviceName k) = [])
    (hcallback : ∀ k, s.callback k = none) (hl : Executed l) :
    step kNumRelays numMessages s l = none := by
  cases l with
  | send now => exact hl.elim
  | drop i j => exact hl.elim
  | take i j => cases hnode : serviceNode kNumRelays i <;> simp [step, hnode, hrequests, hcallback]
  | forward i => simp [step, hcallback]
  | record now => simp [step, hcallback]
  | respond i => simp [step, hcallback]
  | takeResponse k => exact takeResponse_disabled kNumRelays numMessages s k

/-- The sink samples and answers the request; nothing is left to run. -/
theorem sink_atService {sentAt : ℤ} (readAt : ℤ) (hM : 1 < numMessages)
    (hs : AtService sentAt kNumRelays s) :
    ∃ t, exec (step kNumRelays numMessages) s (sinkLabels kNumRelays readAt) = some t ∧
      (∀ k ≤ kNumRelays, (t.sent k).length = 1) ∧
      ∀ l, Executed l → step kNumRelays numMessages t l = none := by
  have hrequests : s.requests (serviceName kNumRelays) = [atHop sentAt kNumRelays] := by
    simp [hs.requests]
  have htake := @step_take kNumRelays numMessages s kNumRelays _ _ le_rfl (hs.callback _)
    hs.exited hrequests
  refine ⟨_,exec_step htake (exec_step (step_sample readAt (update_self _ _ _)
    (by simpa [hs.data] using hM)) (exec_step (step_respond (update_self _ _ _)) rfl)),?_,?_⟩
  · intro k hk
    simp [hs.sent, hk]
  · intro l hl
    refine idle_of_empty (fun k => ?_) (fun k => ?_) hl
    · simp only [update_apply, serviceName_injective.eq_iff, hs.requests]
      by_cases hk : k = kNumRelays <;> simp [hk]
    · simp only [update_apply, hs.callback]
      by_cases hk : k = kNumRelays <;> simp [hk]

/-- One request sent at `sentAt` and carried through the whole chain. -/
def oneRequestLabels (kNumRelays : ℕ) (sentAt readAt : ℤ) : List Label :=
  chainLabels sentAt kNumRelays ++ sinkLabels kNumRelays readAt

theorem oneRequest_settled (kNumRelays : ℕ) {numMessages : ℕ} (sentAt readAt : ℤ)
    (hM : 1 < numMessages) :
    ∃ s, exec (step kNumRelays numMessages) init (oneRequestLabels kNumRelays sentAt readAt) =
      some s ∧ Settled kNumRelays numMessages (oneRequestLabels kNumRelays sentAt readAt) s := by
  obtain ⟨s,hchain,hs⟩ := @chain_atService kNumRelays numMessages sentAt (by omega) kNumRelays
    le_rfl
  obtain ⟨t,hsink,hsent,hidle⟩ := sink_atService readAt hM hs
  refine ⟨t,exec_trans hchain hsink,fun k hk => ?_,hidle⟩
  have hadd : answers k (oneRequestLabels kNumRelays sentAt readAt) =
      answers k (chainLabels sentAt kNumRelays) + answers k (sinkLabels kNumRelays readAt) :=
    List.count_append
  rw [hadd, answers_chain, answers_sink, hsent k hk]
  split_ifs <;> omega

/-- With the source's constants every client of the settled chain still holds the request. -/
theorem settled_holds_pending : ∃ ls s, exec (step 20 1000) init ls = some s ∧
    Settled 20 1000 ls s ∧ ∀ k ≤ 20, s.pending k = 1 := by
  obtain ⟨s,hrun,hsettled⟩ := @oneRequest_settled 20 1000 5 25 (by norm_num)
  refine ⟨_,s,hrun,hsettled,fun k hk => ?_⟩
  rw [exec_pending hrun, hsettled.sent_length hrun hk]
  rfl

theorem pending_eq_zero_iff_oneRequest : ∃ ls s, exec (step 1 2) init ls = some s ∧
    Settled 1 2 ls s ∧ ∀ k ≤ 1, s.pending k = 0 ↔ ∀ now, Label.send now ∉ ls := by
  obtain ⟨s,hrun,hsettled⟩ := @oneRequest_settled 1 2 5 25 (by norm_num)
  exact ⟨_,s,hrun,hsettled,pending_eq_zero_iff 1 2 hrun hsettled⟩

end RelayBench.Psrv
