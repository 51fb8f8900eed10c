import RelayBench.Library.Execution
import RelayBench.Library.HopQueues
import RelayBench.Common.Report

/-! # The ROS 2 publish/subscribe chain of `pnode/src/pub.cpp`

A callback is two steps: the executor passes it a message or the timer fires, and it
publishes or samples. Callbacks of different nodes interleave, those of one node do not.
A publish says how many of the oldest messages of the topic it overwrites; `KeepsLast`
is the discipline of the depth that `get_qos` sets. The fields `published`, `delivered`,
`overwritten` and `sampled` and the `hops` of a message only record what happened.
-/
namespace RelayBench.Pnode
open Execution Function

/-! ## Nodes and topics -/

inductive ReliabilityPolicy | bestEffort | reliable
deriving DecidableEq, Repr

inductive DurabilityPolicy | volatile | transientLocal
deriving DecidableEq, Repr

/-- `rclcpp::QoS(rclcpp::KeepLast(depth))` with the two policies set on it. -/
structure QoS where
  depth : ℕ
  reliability : ReliabilityPolicy
  durability : DurabilityPolicy
deriving DecidableEq, Repr

def getQos : QoS := ⟨10,.reliable,.transientLocal⟩

/-- What a node's constructor creates: its name, publisher topic and subscribed topic. -/
structure Node where
  name : String
  publisher : Option String
  subscriber : Option String
deriving DecidableEq, Repr

def topic (i : ℤ) : String := "msg_" ++ toString i

structure PnodeRelay where
  name : String
  index : ℤ
deriving DecidableEq, Repr

/-- The constructor reads its index back from `options.arguments()[0]`. -/
def PnodeRelay.new (arguments : List String) : Option PnodeRelay := do
  let arg ← arguments[0]?
  let index ← arg.toInt?
  return ⟨"relay_" ++ arg,index⟩

def PnodeRelay.publisher (r : PnodeRelay) : String := topic (r.index + 1)
def PnodeRelay.subscriber (r : PnodeRelay) : String := topic r.index

/-- The relabelled copy that `listen` builds. -/
def PnodeRelay.copy (r : PnodeRelay) (msg : Timing) : Timing :=
  { msg with source := "pnode relay " ++ toString r.index }

/-- `listen`: the copy is built, and what is published is `msg`. -/
def PnodeRelay.listen (r : PnodeRelay) (msg : Timing) : Timing :=
  let _copy := r.copy msg
  msg

/-- The relays `main` creates, none if a constructor throws. -/
def relays (kNumRelays : ℕ) : Option (List PnodeRelay) :=
  (List.range kNumRelays).mapM (fun i => PnodeRelay.new [toString i])

/-- `PnodeSink` subscribes to `"msg_" + std::to_string(kNumRelays)`. -/
def sinkTopic (kNumRelays : ℕ) : String := topic kNumRelays

/-- Every node `main` adds to the executor. -/
def nodes (kNumRelays : ℕ) : List Node :=
  [⟨"source",some "msg_0",none⟩] ++
  ((relays kNumRelays).getD []).map (fun r => ⟨r.name,some r.publisher,some r.subscriber⟩) ++
  [⟨"sink",none,some (sinkTopic kNumRelays)⟩]

def relayAt (kNumRelays i : ℕ) : Option PnodeRelay := (relays kNumRelays).bind (·[i]?)

/-! ## State and steps -/

/-- A message on a topic, with the names of the nodes that published it so far. -/
structure Message where
  timing : Timing
  hops : List String
deriving DecidableEq, Repr

structure State where
  msgid : ℤ
  sourceHand : Option Timing
  queue : String → List Message
  relayHand : ℕ → Option Message
  sinkHand : Option Message
  data : List ℤ
  reports : List Report
  exited : Bool
  published : List Message
  delivered : String → List Message
  overwritten : List Message
  sampled : List (Message × ℤ)

def init : State where
  msgid := 0
  sourceHand := none
  queue _ := []
  relayHand _ := none
  sinkHand := none
  data := []
  reports := []
  exited := false
  published := []
  delivered _ := []
  overwritten := []
  sampled := []

inductive Label
  | tick (now : ℤ)
  | publish (overwrites : ℕ)
  | take (relay : ℕ)
  | listen (relay overwrites : ℕ)
  | takeSink
  | sample (now : ℤ)
deriving DecidableEq, Repr

/-- `PnodeSource::publish` up to the call of the publisher. -/
def sourceTiming (msgid now : ℤ) : Timing := ⟨msgid,now,"pnode publisher"⟩

/-- A publish overwrites the `k` oldest messages of the topic. -/
def State.push (s : State) (name : String) (k : ℕ) (m : Message) : State :=
  { s with
    queue := update s.queue name ((s.queue name).drop k ++ [m])
    overwritten := s.overwritten ++ (s.queue name).take k }

/-- The executor passes the oldest message of the topic to its subscriber. -/
def State.deliver (s : State) (name : String) (m : Message) (rest : List Message) : State :=
  { s with
    queue := update s.queue name rest
    delivered := update s.delivered name (s.delivered name ++ [m]) }

theorem State.push_queue (s : State) (name : String) (k : ℕ) (m : Message) :
    (s.push name k m).queue = update s.queue name ((s.queue name).drop k ++ [m]) := rfl

theorem State.deliver_queue (s : State) (name : String) (m : Message) (rest : List Message) :
    (s.deliver name m rest).queue = update s.queue name rest := rfl

theorem State.deliver_delivered (s : State) (name : String) (m : Message)
    (rest : List Message) : (s.deliver name m rest).delivered =
      update s.delivered name (s.delivered name ++ [m]) := rfl

/-- `PnodeSink::listen`; `exit(0)` keeps the sink from ever taking another message. -/
def State.listenSink (kNumRelays numMessages : ℕ) (s : State) (m : Message) (now : ℤ) :
    Option State :=
  let data := s.data ++ [nanosecPerHop kNumRelays now m.timing.nanosec]
  let s := { s with data := data, sinkHand := none, sampled := s.sampled ++ [(m,now)] }
  if numMessages ≤ data.length then
    (printStats data).map (fun r => { s with reports := s.reports ++ [r], exited := true })
  else some s

def step (kNumRelays numMessages : ℕ) (s : State) : Label → Option State
  | .tick now =>
    match s.sourceHand with
    | some _ => none
    | none => some { s with
        msgid := s.msgid + 1
        sourceHand := some (sourceTiming (s.msgid + 1) now) }
  | .publish k =>
    match s.sourceHand with
    | none => none
    | some t => some { s.push "msg_0" k ⟨t,["source"]⟩ with
        sourceHand := none
        published := s.published ++ [⟨t,["source"]⟩] }
  | .take i =>
    match relayAt kNumRelays i with
    | none => none
    | some r =>
      match s.relayHand i, s.queue r.subscriber with
      | none, m :: rest => some { s.deliver r.subscriber m rest with
          relayHand := update s.relayHand i (some m) }
      | _, _ => none
  | .listen i k =>
    match relayAt kNumRelays i, s.relayHand i with
    | some r, some m => some { s.push r.publisher k ⟨r.listen m.timing,m.hops ++ [r.name]⟩ with
        relayHand := update s.relayHand i none }
    | _, _ => none
  | .takeSink =>
    match s.sinkHand, s.queue (sinkTopic kNumRelays) with
    | none, m :: rest =>
      if s.exited then none
      else some { s.deliver (sinkTopic kNumRelays) m rest with sinkHand := some m }
    | _, _ => none
  | .sample now =>
    match s.sinkHand with
    | none => none
    | some m => s.listenSink kNumRelays numMessages m now

/-- The step publishes as a topic of depth `get_qos().depth` does: it overwrites the
oldest message exactly when the topic is full. -/
def KeepsLast (kNumRelays : ℕ) (s : State) : Label → Prop
  | .publish k => k = (s.queue "msg_0").length + 1 - getQos.depth
  | .listen i k => ∀ r, relayAt kNumRelays i = some r →
      k = (s.queue r.publisher).length + 1 - getQos.depth
  | _ => True

/-! ## The wiring -/

theorem topic_injective : Injective topic := by
  intro i j h
  have hs : toString i = toString j := by simpa [topic] using h
  exact Int.repr_inj.mp hs

theorem topic_zero : "msg_0" = topic (0 : ℕ) := rfl

theorem relayNew_toString (i : ℕ) :
    PnodeRelay.new [toString i] = some ⟨"relay_" ++ toString i,i⟩ := by
  simp [PnodeRelay.new]

theorem relays_eq (kNumRelays : ℕ) : relays kNumRelays =
    some ((List.range kNumRelays).map (fun i => ⟨"relay_" ++ toString i,(i : ℤ)⟩)) := by
  unfold relays
  induction List.range kNumRelays with
  | nil => rfl
  | cons i is ih =>
    rw [List.mapM_cons, relayNew_toString, ih]
    rfl

theorem relayAt_eq {kNumRelays i : ℕ} {r : PnodeRelay} :
    relayAt kNumRelays i = some r ↔ i < kNumRelays ∧ r = ⟨"relay_" ++ toString i,i⟩ := by
  simp [relayAt, relays_eq]
  grind

end RelayBench.Pnode
