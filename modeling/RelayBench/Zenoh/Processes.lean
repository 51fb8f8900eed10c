import RelayBench.Zenoh.Model
import RelayBench.Zenoh.MultiProcess

/-! # The multi-process bench: `mpclient.rs`, `mprelay.rs` and `mpsink.rs`

Any programs may be started, with any arguments, at any time. A message is delivered to the
subscribers of its topic that are declared when it is published; a publisher has an in-order
queue to each of them, from which messages may be lost. A subscriber is gone once its loop has
returned. A process whose arguments are refused does nothing else. The fields `sent`, `received`,
`handled` and `lost` record what happened, as do the `timing` and the `path` of a message.
-/
namespace RelayBench.ZenohProcesses
open Function
open Zenoh (ThriftCrate clientPayload relayPayload sinkTiming clientTiming PAYLOAD_SIZE MpSink mpsink)

/-! ## Programs -/

/-- The command lines of `run_mp_bench.sh`. -/
inductive Program
  | mpclient
  | mprelay (args : List String)
  | mpsink (args : List String)
deriving DecidableEq, Repr

/-- What a process is once it has read its arguments. -/
inductive Role
  | client
  | relay (index : ℤ)
  | sink (index : ℤ)
deriving DecidableEq, Repr

/-- `main` of `mprelay.rs` reads its arguments as that of `mpsink.rs` does. -/
def mprelay (args : List String) : MpSink := mpsink args

def started (role : ℤ → Role) : MpSink → Option Role
  | .started index => some (role index)
  | .usage => none
  | .panicked => none

def Program.role : Program → Option Role
  | .mpclient => some .client
  | .mprelay args => started .relay (ZenohProcesses.mprelay args)
  | .mpsink args => started .sink (Zenoh.mpsink args)

/-- `bench/hop{i}`. -/
def topic (i : ℤ) : String := "bench/hop" ++ toString i

/-- The hop that a process receives from. -/
def Role.subscribes : Role → Option ℤ
  | .client => none
  | .relay index => some index
  | .sink index => some index

/-- The hop that a process publishes on; the sum is an `i32`. -/
def Role.publishes : Role → Option ℤ
  | .client => some 0
  | .relay index => some (asI32 (index + 1))
  | .sink _ => none

/-! ## States -/

structure Message where
  payload : List UInt8
  timing : Timing
  path : List ℤ
deriving DecidableEq

inductive Pc
  | unstarted
  | subscribing
  | publishing
  | sending (i : ℕ)
  | receiving
  | holding (m : Message)
  | sleeping
  | exited
  | panicked
deriving DecidableEq

/-- Between `declare_subscriber` and the end of the loop. -/
def Pc.Subscribed : Pc → Prop
  | .publishing | .receiving | .holding _ => True
  | _ => False

instance : DecidablePred Pc.Subscribed
  | .publishing | .receiving | .holding _ => .isTrue trivial
  | .unstarted | .subscribing | .sending _ | .sleeping | .exited | .panicked => .isFalse id

structure State where
  pc : ℕ → Pc
  queue : ℕ → ℕ → List Message
  messageCount : ℕ → ℕ
  latencyVec : ℕ → List ℤ
  reports : ℕ → List Report
  sent : ℕ → List Message
  received : ℕ → List (ℕ × Message)
  handled : ℕ → List Timing
  lost : ℕ → ℕ → List Message

def init : State where
  pc _ := .unstarted
  queue _ _ := []
  messageCount _ := 0
  latencyVec _ := []
  reports _ := []
  sent _ := []
  received _ := []
  handled _ := []
  lost _ _ := []

/-- A process goes on, perhaps with the clock read; it takes a message of a publisher; a message
is lost. -/
inductive Label
  | run (p elapsed : ℕ)
  | take (q p : ℕ)
  | lose (p q position : ℕ)
deriving DecidableEq, Repr

/-- The steps of the processes; a loss is none of them. -/
def Label.IsTask : Label → Prop
  | .lose _ _ _ => False
  | _ => True

def State.goto (s : State) (p : ℕ) (pc : Pc) : State := { s with pc := update s.pc p pc }

variable (T : ThriftCrate) (numMessages : ℕ) (ps : List Program)

/-- What process `p` of those that were started is. -/
def role (p : ℕ) : Option Role := ps[p]?.bind Program.role

/-- The process subscribes to this topic. -/
def Hears (q : ℕ) (name : String) : Prop :=
  ((role ps q).bind Role.subscribes).map topic = some name

instance (q : ℕ) (name : String) : Decidable (Hears ps q name) :=
  inferInstanceAs (Decidable (_ = _))

/-! ## Steps -/

/-- `publisher.put` of process `p`. -/
def State.put (s : State) (p : ℕ) (name : String) (m : Message) : State :=
  { s with
    sent := update s.sent p (s.sent p ++ [m])
    queue := update s.queue p (fun q =>
      if Hears ps q name ∧ (s.pc q).Subscribed then s.queue p q ++ [m] else s.queue p q)
    lost := update s.lost p (fun q =>
      if Hears ps q name ∧ ¬(s.pc q).Subscribed then s.lost p q ++ [m] else s.lost p q) }

/-- `mpclient`. -/
def clientStep (p elapsed : ℕ) (s : State) : Option State :=
  match s.pc p with
  | .unstarted => some (s.goto p .publishing)
  | .publishing => some (s.goto p (.sending 0))
  | .sending i =>
    if i < numMessages then
      match clientPayload T PAYLOAD_SIZE (clientTiming i elapsed) with
      | none => some (s.goto p .panicked)
      | some payload =>
        some ((s.put ps p (topic 0) ⟨payload,clientTiming i elapsed,[]⟩).goto p (.sending (i + 1)))
    else some (s.goto p .sleeping)
  | .sleeping => some (s.goto p .exited)
  | _ => none

/-- `mprelay` and its `relay_loop`. -/
def relayStep (p : ℕ) (index : ℤ) (s : State) : Option State :=
  match s.pc p with
  | .unstarted => some (s.goto p .subscribing)
  | .subscribing => some (s.goto p .publishing)
  | .publishing => some (s.goto p .receiving)
  | .holding m =>
    match relayPayload T PAYLOAD_SIZE m.payload with
    | none => some (s.goto p .panicked)
    | some payload =>
      let count := s.messageCount p + 1
      some { (s.put ps p (topic (asI32 (index + 1))) ⟨payload,m.timing,m.path ++ [index]⟩).goto p
          (if count = numMessages then .sleeping else .receiving) with
        messageCount := update s.messageCount p count
        handled := update s.handled p (s.handled p ++ [m.timing]) }
  | .sleeping => some (s.goto p .exited)
  | _ => none

/-- A sink pushes a latency; a full vector is sorted, reported and cleared. -/
def State.pushLatency (p : ℕ) (v : ℤ) (s : State) : State :=
  let vec := s.latencyVec p ++ [v]
  if vec.length = numMessages then
    match printStats vec with
    | none => { s.goto p .panicked with latencyVec := update s.latencyVec p vec }
    | some r => { s.goto p .sleeping with
        latencyVec := update s.latencyVec p []
        reports := update s.reports p (s.reports p ++ [r]) }
  else { s.goto p .receiving with latencyVec := update s.latencyVec p vec }

/-- `sink_loop` on one message it has read; the division may panic. -/
def State.handle (p : ℕ) (index : ℤ) (elapsed : ℕ) (t : Timing) (s : State) : State :=
  match latency index (asI64 elapsed) t.nanosec with
  | none => s.goto p .panicked
  | some v => { s.pushLatency numMessages p v with
      handled := update s.handled p (s.handled p ++ [t]) }

/-- `mpsink` and its `sink_loop`. -/
def sinkStep (p : ℕ) (index : ℤ) (elapsed : ℕ) (s : State) : Option State :=
  match s.pc p with
  | .unstarted => some (s.goto p .subscribing)
  | .subscribing => some (s.goto p .receiving)
  | .holding m =>
    match sinkTiming T PAYLOAD_SIZE m.payload with
    | none => some (s.goto p .panicked)
    | some t => some (s.handle numMessages p index elapsed t)
  | .sleeping => some (s.goto p .exited)
  | _ => none

def runStep (p elapsed : ℕ) (s : State) : Option State :=
  match role ps p with
  | none => none
  | some .client => clientStep T numMessages ps p elapsed s
  | some (.relay index) => relayStep T numMessages ps p index s
  | some (.sink index) => sinkStep T numMessages p index elapsed s

def step (s : State) : Label → Option State
  | .run p elapsed => runStep T numMessages ps p elapsed s
  | .take q p =>
    match s.pc q, s.queue p q with
    | .receiving, m :: rest => some { s.goto q (.holding m) with
        queue := update s.queue p (update (s.queue p) q rest)
        received := update s.received q (s.received q ++ [(p,m)]) }
    | _, _ => none
  | .lose p q j =>
    match (s.queue p q)[j]? with
    | none => none
    | some m => some { s with
        queue := update s.queue p (update (s.queue p) q ((s.queue p q).eraseIdx j))
        lost := update s.lost p (update (s.lost p) q (s.lost p q ++ [m])) }

theorem topic_injective : Injective topic := by
  intro i j h
  have hs : toString i = toString j := by simpa [topic] using h
  exact Int.repr_injective hs

section Moves
variable {T : ThriftCrate} {numMessages : ℕ} {ps : List Program} {s t : State} {l : Label} {p : ℕ}

/-! ## Moves -/

/-- The steps of a process that concern no message. -/
inductive Goes (numMessages : ℕ) : Role → Pc → Pc → Prop
  | startClient : Goes numMessages .client .unstarted .publishing
  | declareClient : Goes numMessages .client .publishing (.sending 0)
  | endClient (i : ℕ) (hend : numMessages ≤ i) : Goes numMessages .client (.sending i) .sleeping
  | startRelay (index : ℤ) : Goes numMessages (.relay index) .unstarted .subscribing
  | subscribeRelay (index : ℤ) : Goes numMessages (.relay index) .subscribing .publishing
  | declareRelay (index : ℤ) : Goes numMessages (.relay index) .publishing .receiving
  | startSink (index : ℤ) : Goes numMessages (.sink index) .unstarted .subscribing
  | subscribeSink (index : ℤ) : Goes numMessages (.sink index) .subscribing .receiving
  | exit (r : Role) : Goes numMessages r .sleeping .exited

/-- An unwrap or the division panics. -/
inductive Panics (T : ThriftCrate) (s : State) (p : ℕ) : Role → Prop
  | client (i elapsed : ℕ) (hpc : s.pc p = .sending i)
      (hnone : clientPayload T PAYLOAD_SIZE (clientTiming i elapsed) = none) : Panics T s p .client
  | relay (index : ℤ) (m : Message) (hpc : s.pc p = .holding m)
      (hnone : relayPayload T PAYLOAD_SIZE m.payload = none) : Panics T s p (.relay index)
  | read (index : ℤ) (m : Message) (hpc : s.pc p = .holding m)
      (hnone : sinkTiming T PAYLOAD_SIZE m.payload = none) : Panics T s p (.sink index)
  | divide (index : ℤ) (elapsed : ℕ) (m : Message) (u : Timing) (hpc : s.pc p = .holding m)
      (hread : sinkTiming T PAYLOAD_SIZE m.payload = some u)
      (hnone : latency index (asI64 elapsed) u.nanosec = none) : Panics T s p (.sink index)

/-- A step of the processes, its guards explicit. -/
inductive Move (T : ThriftCrate) (numMessages : ℕ) (ps : List Program) (s : State) :
    Label → State → Prop
  | goto {elapsed : ℕ} (p : ℕ) (r : Role) (pc : Pc) (hrole : role ps p = some r)
      (hgoes : Goes numMessages r (s.pc p) pc) :
      Move T numMessages ps s (.run p elapsed) (s.goto p pc)
  | publish (p i elapsed : ℕ) (payload : List UInt8) (hrole : role ps p = some .client)
      (hpc : s.pc p = .sending i) (hlow : i < numMessages)
      (hpayload : clientPayload T PAYLOAD_SIZE (clientTiming i elapsed) = some payload) :
      Move T numMessages ps s (.run p elapsed)
        ((s.put ps p (topic 0) ⟨payload,clientTiming i elapsed,[]⟩).goto p (.sending (i + 1)))
  | take (q p : ℕ) (m : Message) (rest : List Message) (hpc : s.pc q = .receiving)
      (hqueue : s.queue p q = m :: rest) :
      Move T numMessages ps s (.take q p) { s.goto q (.holding m) with
        queue := update s.queue p (update (s.queue p) q rest)
        received := update s.received q (s.received q ++ [(p,m)]) }
  | forward {elapsed : ℕ} (p : ℕ) (index : ℤ) (m : Message) (payload : List UInt8)
      (hrole : role ps p = some (.relay index)) (hpc : s.pc p = .holding m)
      (hpayload : relayPayload T PAYLOAD_SIZE m.payload = some payload) :
      Move T numMessages ps s (.run p elapsed)
        { (s.put ps p (topic (asI32 (index + 1))) ⟨payload,m.timing,m.path ++ [index]⟩).goto p
            (if s.messageCount p + 1 = numMessages then .sleeping else .receiving) with
          messageCount := update s.messageCount p (s.messageCount p + 1)
          handled := update s.handled p (s.handled p ++ [m.timing]) }
  | sample (p : ℕ) (index : ℤ) (elapsed : ℕ) (m : Message) (u : Timing) (v : ℤ)
      (hrole : role ps p = some (.sink index)) (hpc : s.pc p = .holding m)
      (hread : sinkTiming T PAYLOAD_SIZE m.payload = some u)
      (hv : latency index (asI64 elapsed) u.nanosec = some v)
      (hlow : (s.latencyVec p).length + 1 ≠ numMessages) :
      Move T numMessages ps s (.run p elapsed) { s.goto p .receiving with
        latencyVec := update s.latencyVec p (s.latencyVec p ++ [v])
        handled := update s.handled p (s.handled p ++ [u]) }
  | report (p : ℕ) (index : ℤ) (elapsed : ℕ) (m : Message) (u : Timing) (v : ℤ) (r : Report)
      (hrole : role ps p = some (.sink index)) (hpc : s.pc p = .holding m)
      (hread : sinkTiming T PAYLOAD_SIZE m.payload = some u)
      (hv : latency index (asI64 elapsed) u.nanosec = some v)
      (hfull : (s.latencyVec p).length + 1 = numMessages)
      (hprint : printStats (s.latencyVec p ++ [v]) = some r) :
      Move T numMessages ps s (.run p elapsed) { s.goto p .sleeping with
        latencyVec := update s.latencyVec p []
        reports := update s.reports p (s.reports p ++ [r])
        handled := update s.handled p (s.handled p ++ [u]) }
  | panic {elapsed : ℕ} (p : ℕ) (r : Role) (hrole : role ps p = some r)
      (hpanics : Panics T s p r) : Move T numMessages ps s (.run p elapsed) (s.goto p .panicked)
  | lose (p q j : ℕ) (m : Message) (hm : (s.queue p q)[j]? = some m) :
      Move T numMessages ps s (.lose p q j) { s with
        queue := update s.queue p (update (s.queue p) q ((s.queue p q).eraseIdx j))
        lost := update s.lost p (update (s.lost p) q (s.lost p q ++ [m])) }

theorem clientStep_move {elapsed : ℕ} (hrole : role ps p = some .client)
    (h : clientStep T numMessages ps p elapsed s = some t) :
    Move T numMessages ps s (.run p elapsed) t := by
  unfold clientStep at h
  split at h
  · rename_i hpc
    exact Option.some.inj h ▸ .goto p _ _ hrole (hpc ▸ .startClient)
  · rename_i hpc
    exact Option.some.inj h ▸ .goto p _ _ hrole (hpc ▸ .declareClient)
  · rename_i i hpc
    by_cases hlow : i < numMessages
    · rw [if_pos hlow] at h
      split at h
      · rename_i hnone
        exact Option.some.inj h ▸ .panic p _ hrole (.client i elapsed hpc hnone)
      · rename_i payload hpayload
        exact Option.some.inj h ▸ .publish p i elapsed payload hrole hpc hlow hpayload
    · rw [if_neg hlow] at h
      exact Option.some.inj h ▸ .goto p _ _ hrole (hpc ▸ .endClient i (not_lt.mp hlow))
  · rename_i hpc
    exact Option.some.inj h ▸ .goto p _ _ hrole (hpc ▸ .exit _)
  · cases h

theorem relayStep_move {index : ℤ} {elapsed : ℕ} (hrole : role ps p = some (.relay index))
    (h : relayStep T numMessages ps p index s = some t) :
    Move T numMessages ps s (.run p elapsed) t := by
  unfold relayStep at h
  split at h
  · rename_i hpc
    exact Option.some.inj h ▸ .goto p _ _ hrole (hpc ▸ .startRelay index)
  · rename_i hpc
    exact Option.some.inj h ▸ .goto p _ _ hrole (hpc ▸ .subscribeRelay index)
  · rename_i hpc
    exact Option.some.inj h ▸ .goto p _ _ hrole (hpc ▸ .declareRelay index)
  · rename_i m hpc
    split at h
    · rename_i hnone
      exact Option.some.inj h ▸ .panic p _ hrole (.relay index m hpc hnone)
    · rename_i payload hpayload
      exact Option.some.inj h ▸ .forward p index m payload hrole hpc hpayload
  · rename_i hpc
    exact Option.some.inj h ▸ .goto p _ _ hrole (hpc ▸ .exit _)
  · cases h

theorem handle_move {index : ℤ} {elapsed : ℕ} {m : Message} {u : Timing}
    (hrole : role ps p = some (.sink index)) (hpc : s.pc p = .holding m)
    (hread : sinkTiming T PAYLOAD_SIZE m.payload = some u) :
    Move T numMessages ps s (.run p elapsed) (s.handle numMessages p index elapsed u) := by
  unfold State.handle
  split
  · rename_i hnone
    exact .panic p _ hrole (.divide index elapsed m u hpc hread hnone)
  · rename_i v hv
    unfold State.pushLatency
    dsimp only
    by_cases hfull : (s.latencyVec p).length + 1 = numMessages
    · obtain ⟨r,hprint,_⟩ := printStats_of_ne_nil (List.append_ne_nil_of_right_ne_nil
        (s.latencyVec p) (List.cons_ne_nil v []))
      rw [if_pos (by rwa [List.length_append]), hprint]
      exact .report p index elapsed m u v r hrole hpc hread hv hfull hprint
    · rw [if_neg (by rwa [List.length_append])]
      exact .sample p index elapsed m u v hrole hpc hread hv hfull

theorem sinkStep_move {index : ℤ} {elapsed : ℕ} (hrole : role ps p = some (.sink index))
    (h : sinkStep T numMessages p index elapsed s = some t) :
    Move T numMessages ps s (.run p elapsed) t := by
  unfold sinkStep at h
  split at h
  · rename_i hpc
    exact Option.some.inj h ▸ .goto p _ _ hrole (hpc ▸ .startSink index)
  · rename_i hpc
    exact Option.some.inj h ▸ .goto p _ _ hrole (hpc ▸ .subscribeSink index)
  · rename_i m hpc
    split at h
    · rename_i hnone
      exact Option.some.inj h ▸ .panic p _ hrole (.read index m hpc hnone)
    · rename_i u hread
      exact Option.some.inj h ▸ handle_move hrole hpc hread
  · rename_i hpc
    exact Option.some.inj h ▸ .goto p _ _ hrole (hpc ▸ .exit _)
  · cases h

theorem step_move (h : step T numMessages ps s l = some t) : Move T numMessages ps s l t := by
  cases l with
  | run p elapsed =>
    simp only [step, runStep] at h
    split at h
    · cases h
    · rename_i hrole
      exact clientStep_move hrole h
    · rename_i index hrole
      exact relayStep_move hrole h
    · rename_i index hrole
      exact sinkStep_move hrole h
  | take q p =>
    simp only [step] at h
    split at h
    · rename_i m rest hpc hqueue
      exact Option.some.inj h ▸ .take q p m rest hpc hqueue
    · cases h
  | lose p q j =>
    simp only [step] at h
    split at h
    · cases h
    · rename_i m hm
      exact Option.some.inj h ▸ .lose p q j m hm

end Moves

/-! ## What is read of a state after a step -/

section Fields
variable {ps : List Program} (s : State) (p p' q : ℕ) (pc : Pc) (name : String) (m : Message)

@[simp] theorem goto_pc : (s.goto p pc).pc = update s.pc p pc := rfl
@[simp] theorem goto_queue : (s.goto p pc).queue = s.queue := rfl
@[simp] theorem goto_messageCount : (s.goto p pc).messageCount = s.messageCount := rfl
@[simp] theorem goto_latencyVec : (s.goto p pc).latencyVec = s.latencyVec := rfl
@[simp] theorem goto_reports : (s.goto p pc).reports = s.reports := rfl
@[simp] theorem goto_sent : (s.goto p pc).sent = s.sent := rfl
@[simp] theorem goto_received : (s.goto p pc).received = s.received := rfl
@[simp] theorem goto_handled : (s.goto p pc).handled = s.handled := rfl
@[simp] theorem goto_lost : (s.goto p pc).lost = s.lost := rfl
@[simp] theorem put_pc : (s.put ps p name m).pc = s.pc := rfl
@[simp] theorem put_messageCount : (s.put ps p name m).messageCount = s.messageCount := rfl
@[simp] theorem put_latencyVec : (s.put ps p name m).latencyVec = s.latencyVec := rfl
@[simp] theorem put_reports : (s.put ps p name m).reports = s.reports := rfl
@[simp] theorem put_received : (s.put ps p name m).received = s.received := rfl
@[simp] theorem put_handled : (s.put ps p name m).handled = s.handled := rfl
@[simp] theorem put_sent : (s.put ps p name m).sent = update s.sent p (s.sent p ++ [m]) := rfl

variable {s p p' q name m} {m' : Message}

theorem mem_put_sent (h : m' ∈ (s.put ps p name m).sent p') :
    m' ∈ s.sent p' ∨ (p' = p ∧ m' = m) := by
  rcases eq_or_ne p' p with rfl | hne
  · simpa using h
  · exact .inl (by simpa [update_of_ne hne] using h)

theorem sent_subset_put : s.sent p' ⊆ (s.put ps p name m).sent p' := by
  intro x hx
  rcases eq_or_ne p' p with rfl | hne
  · simp [hx]
  · simpa [update_of_ne hne] using hx

theorem mem_put_queue (h : m' ∈ (s.put ps p name m).queue p' q) :
    m' ∈ s.queue p' q ∨ (p' = p ∧ m' = m ∧ Hears ps q name) := by
  rcases eq_or_ne p' p with rfl | hne
  · simp only [State.put, update_self] at h
    split at h
    · rename_i hhears
      rcases List.mem_append.mp h with h | h
      · exact .inl h
      · exact .inr ⟨rfl,List.mem_singleton.mp h,hhears.1⟩
    · exact .inl h
  · simp only [State.put, update_of_ne hne] at h
    exact .inl h

end Fields

end RelayBench.ZenohProcesses
