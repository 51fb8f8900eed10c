import RelayBench.Library.Execution
import RelayBench.Common.Report

/-! # The ROS 2 client/service chain of `psrv/src/srv.cpp`

A service callback is three steps: the executor takes a request, the callback runs, the
response is sent. Callbacks of different services interleave, those of one do not. The
middleware may take any request in flight or drop it. An executor takes responses only for
the clients whose node it has been given. The fields `sent`, `handled`, `dropped` and
`samples` only record what happened.
-/
namespace RelayBench.Psrv
open Execution Function

/-! ## Clients, services and the executor -/

def serviceName (i : ℕ) : String := "srv_relay_" ++ toString i

structure Client where
  node : String
  service : String
deriving DecidableEq, Repr

/-- `clients` of `main`, `kNumRelays + 1` of them. -/
def clients (kNumRelays : ℕ) : List Client :=
  (List.range (kNumRelays + 1)).map (fun i => ⟨"srv_client_" ++ toString i,serviceName i⟩)

/-- The node whose executor runs the callback of service `i`; the last is the sink. -/
def serviceNode (kNumRelays i : ℕ) : Option String :=
  if i < kNumRelays then some ("srv_relay_" ++ toString i)
  else if i = kNumRelays then some "srv_sink"
  else none

/-- The nodes `main` adds to the executor. -/
def executorNodes (kNumRelays : ℕ) : List String :=
  (List.range kNumRelays).map (fun i => "srv_relay_" ++ toString i) ++ ["srv_sink"]

/-! ## State and steps -/

/-- A service callback: the request it was given, then the ack it set. -/
inductive Callback
  | called (request : Timing)
  | returned (ack : ℤ)
deriving DecidableEq, Repr

structure State where
  next : ℕ
  requests : String → List Timing
  callback : ℕ → Option Callback
  responses : ℕ → List ℤ
  pending : ℕ → ℕ
  data : List ℤ
  reports : List Report
  exited : Bool
  sent : ℕ → List Timing
  handled : ℕ → List Timing
  dropped : ℕ → List Timing
  samples : List (Timing × ℤ)

def init : State where
  next := 0
  requests _ := []
  callback _ := none
  responses _ := []
  pending _ := 0
  data := []
  reports := []
  exited := false
  sent _ := []
  handled _ := []
  dropped _ := []
  samples := []

inductive Label
  | send (now : ℤ)
  | take (service position : ℕ)
  | forward (service : ℕ)
  | record (now : ℤ)
  | respond (service : ℕ)
  | takeResponse (client : ℕ)
  | drop (service position : ℕ)
deriving DecidableEq, Repr

/-- The request of one iteration of `client_thread`. -/
def clientRequest (i : ℕ) (now : ℤ) : Timing := ⟨i,now,"client"⟩

/-- The copy the callback of relay service `i` sends on. -/
def relayCopy (i : ℕ) (request : Timing) : Timing :=
  { request with source := "srv relay " ++ toString i }

/-- `async_send_request` of client `k`: one more pending entry, one more request in flight. -/
def State.asyncSend (s : State) (k : ℕ) (service : String) (request : Timing) : State :=
  { s with
    requests := update s.requests service (s.requests service ++ [request])
    pending := update s.pending k (s.pending k + 1)
    sent := update s.sent k (s.sent k ++ [request]) }

/-- The sink callback; past `exit(0)` it never returns. -/
def State.sinkCallback (kNumRelays numMessages : ℕ) (s : State) (request : Timing) (now : ℤ) :
    Option State :=
  let data := s.data ++ [nanosecPerHop kNumRelays now request.nanosec]
  let s := { s with
    data := data
    handled := update s.handled kNumRelays (s.handled kNumRelays ++ [request])
    samples := s.samples ++ [(request,now)] }
  if numMessages ≤ data.length then
    (printStats data).map (fun r => { s with
      reports := s.reports ++ [r]
      exited := true
      callback := update s.callback kNumRelays none })
  else some { s with callback := update s.callback kNumRelays (some (.returned request.msgid)) }

def step (kNumRelays numMessages : ℕ) (s : State) : Label → Option State
  | .send now =>
    match (clients kNumRelays)[0]? with
    | none => none
    | some client =>
      if s.next < numMessages then
        some { s.asyncSend 0 client.service (clientRequest s.next now) with next := s.next + 1 }
      else none
  | .take i j =>
    match serviceNode kNumRelays i, s.callback i, (s.requests (serviceName i))[j]? with
    | some node, none, some request =>
      if node ∈ executorNodes kNumRelays ∧ ¬(i = kNumRelays ∧ s.exited) then
        some { s with
          requests := update s.requests (serviceName i) ((s.requests (serviceName i)).eraseIdx j)
          callback := update s.callback i (some (.called request)) }
      else none
    | _, _, _ => none
  | .forward i =>
    match s.callback i, (clients kNumRelays)[i + 1]? with
    | some (.called request), some client =>
      if i < kNumRelays then
        some { s.asyncSend (i + 1) client.service (relayCopy i request) with
          callback := update s.callback i (some (.returned request.msgid))
          handled := update s.handled i (s.handled i ++ [request]) }
      else none
    | _, _ => none
  | .record now =>
    match s.callback kNumRelays with
    | some (.called request) => s.sinkCallback kNumRelays numMessages request now
    | _ => none
  | .respond i =>
    match s.callback i with
    | some (.returned ack) => some { s with
        callback := update s.callback i none
        responses := update s.responses i (s.responses i ++ [ack]) }
    | _ => none
  | .takeResponse k =>
    match (clients kNumRelays)[k]?, s.responses k with
    | some client, _ :: rest =>
      if client.node ∈ executorNodes kNumRelays then
        some { s with
          responses := update s.responses k rest
          pending := update s.pending k (s.pending k - 1) }
      else none
    | _, _ => none
  | .drop i j =>
    match (s.requests (serviceName i))[j]? with
    | none => none
    | some request => some { s with
        requests := update s.requests (serviceName i) ((s.requests (serviceName i)).eraseIdx j)
        dropped := update s.dropped i (s.dropped i ++ [request]) }

/-! ## The wiring -/

theorem serviceName_injective : Injective serviceName := by
  intro i j h
  have hs : toString i = toString j := by simpa [serviceName] using h
  exact Nat.repr_inj.mp hs

theorem clients_getElem? {kNumRelays k : ℕ} (hk : k ≤ kNumRelays) :
    (clients kNumRelays)[k]? = some ⟨"srv_client_" ++ toString k,serviceName k⟩ := by
  have hlt : k < kNumRelays + 1 := by omega
  simp [clients, List.getElem?_range hlt]

theorem serviceNode_mem {kNumRelays i : ℕ} {node : String}
    (h : serviceNode kNumRelays i = some node) :
    i ≤ kNumRelays ∧ node ∈ executorNodes kNumRelays := by
  unfold serviceNode at h
  split at h
  · rename_i hi
    cases h
    exact ⟨hi.le,List.mem_append_left _ (List.mem_map_of_mem (List.mem_range.mpr hi))⟩
  · split at h
    · cases h
      exact ⟨by omega,List.mem_append_right _ (List.mem_singleton_self _)⟩
    · cases h

end RelayBench.Psrv
