import RelayBench.Library.Execution
import RelayBench.Grpc.Model

/-! # The handler threads of the gRPC chain

Every server dispatches whatever requests have arrived, each on a thread of its own. A stub
call has a number of its own; its caller is blocked until a reply of this number arrives.
The fields `origin` and `inserted` record the iteration of `main`'s loop a handler or a
sample belongs to.
-/
namespace RelayBench.GrpcThreads
open Execution RemoteCall Ports Grpc

/-- Where a handler is: relays wait for their call and are answered, the sink inserts and,
on the last sample, reports and exits. -/
inductive Pc
  | entered
  | waiting (call : ℕ)
  | answered
  | inserted
  | reporting
  | exiting
deriving DecidableEq, Repr

structure Sent where
  call : ℕ
  port : ℕ
  request : Timing
  origin : ℕ
deriving DecidableEq, Repr

structure Activation where
  call : ℕ
  server : Server
  request : Timing
  origin : ℕ
  pc : Pc
deriving DecidableEq, Repr

structure State where
  client : Option ℕ
  finished : ℕ
  calls : ℕ
  requests : List Sent
  activations : List Activation
  replies : List (ℕ × Response)
  data : List ℤ
  reports : List Report
  inserted : List ℕ
deriving DecidableEq, Repr

def init : State := ⟨none,0,0,[],[],[],[],[],[]⟩

inductive Label
  | send (now : ℤ)
  | dispatch (position : ℕ)
  | forward (thread : ℕ)
  | insert (thread : ℕ) (now : ℤ)
  | report (thread : ℕ)
  | ret (thread : ℕ)
  | receive (thread position : ℕ)
  | receiveClient (position : ℕ)
deriving DecidableEq, Repr

/-- The request of one iteration of `main`'s loop. -/
def clientRequest (now : ℤ) : Timing := ⟨10,now,"client"⟩

/-- A stub call: the next number, and one more request in flight. -/
def State.call (s : State) (port : ℕ) (request : Timing) (origin : ℕ) : State :=
  { s with calls := s.calls + 1, requests := s.requests ++ [⟨s.calls,port,request,origin⟩] }

def step (kNumRelays numMessages : ℕ) (s : State) : Label → Option State
  | .send now =>
    if s.client = none ∧ s.finished < numMessages then
      some { s.call 5000 (clientRequest now) s.finished with client := some s.calls }
    else none
  | .dispatch j =>
    match s.requests[j]? with
    | none => none
    | some m =>
      match listening kRelayPortStart kNumRelays m.port with
      | none => none
      | some server => some { s with
          requests := s.requests.eraseIdx j
          activations := s.activations ++ [⟨m.call,server,m.request,m.origin,.entered⟩] }
  | .forward a =>
    match s.activations[a]? with
    | some ⟨call,.relay id,request,origin,.entered⟩ =>
      some { s.call (port id + 1) (relayCopy id request) origin with
        activations := s.activations.set a ⟨call,.relay id,request,origin,.waiting s.calls⟩ }
    | _ => none
  | .insert a now =>
    match s.activations[a]? with
    | some ⟨call,.sink,request,origin,.entered⟩ =>
      let data := insertSample kNumRelays now request s.data
      let pc := if numMessages ≤ data.length then Pc.reporting else Pc.inserted
      some { s with
        data := data
        inserted := s.inserted ++ [origin]
        activations := s.activations.set a ⟨call,.sink,request,origin,pc⟩ }
    | _ => none
  | .report a =>
    match s.activations[a]? with
    | some ⟨call,.sink,request,origin,.reporting⟩ =>
      (printStats s.data).map (fun r => { s with
        reports := s.reports ++ [r]
        activations := s.activations.set a ⟨call,.sink,request,origin,.exiting⟩ })
    | _ => none
  | .ret a =>
    match s.activations[a]? with
    | some ⟨call,_,request,_,pc⟩ =>
      if pc = .answered ∨ pc = .inserted then
        some { s with
          activations := s.activations.eraseIdx a
          replies := s.replies ++ [(call,⟨request.msgid⟩)] }
      else none
    | none => none
  | .receive a j =>
    match s.activations[a]?, s.replies[j]? with
    | some ⟨call,server,request,origin,.waiting c⟩, some (c',_) =>
      if c = c' then
        some { s with
          activations := s.activations.set a ⟨call,server,request,origin,.answered⟩
          replies := s.replies.eraseIdx j }
      else none
    | _, _ => none
  | .receiveClient j =>
    match s.client, s.replies[j]? with
    | some c, some (c',_) =>
      if c = c' then
        some { s with client := none, finished := s.finished + 1, replies := s.replies.eraseIdx j }
      else none
    | _, _ => none

/-- A step of the threads, its guards explicit. -/
inductive Move (kNumRelays numMessages : ℕ) (s : State) : Label → State → Prop
  | send (now : ℤ) (hidle : s.client = none) (hlow : s.finished < numMessages) :
      Move kNumRelays numMessages s (.send now)
        { s.call 5000 (clientRequest now) s.finished with client := some s.calls }
  | dispatch (j : ℕ) (m : Sent) (server : Server) (hrequest : s.requests[j]? = some m)
      (hport : listening kRelayPortStart kNumRelays m.port = some server) :
      Move kNumRelays numMessages s (.dispatch j)
        { s with
          requests := s.requests.eraseIdx j
          activations := s.activations ++ [⟨m.call,server,m.request,m.origin,.entered⟩] }
  | forward (a id : ℕ) (act : Activation) (hact : s.activations[a]? = some act)
      (hserver : act.server = .relay id) (hpc : act.pc = .entered) :
      Move kNumRelays numMessages s (.forward a)
        { s.call (port id + 1) (relayCopy id act.request) act.origin with
          activations := s.activations.set a { act with pc := .waiting s.calls } }
  | insert (a : ℕ) (now : ℤ) (act : Activation) (hact : s.activations[a]? = some act)
      (hserver : act.server = .sink) (hpc : act.pc = .entered) :
      Move kNumRelays numMessages s (.insert a now)
        { s with
          data := insertSample kNumRelays now act.request s.data
          inserted := s.inserted ++ [act.origin]
          activations := s.activations.set a { act with
            pc := if numMessages ≤ s.data.length + 1 then .reporting else .inserted } }
  | report (a : ℕ) (act : Activation) (r : Report) (hact : s.activations[a]? = some act)
      (hpc : act.pc = .reporting) (hprint : printStats s.data = some r) :
      Move kNumRelays numMessages s (.report a)
        { s with
          reports := s.reports ++ [r]
          activations := s.activations.set a { act with pc := .exiting } }
  | ret (a : ℕ) (act : Activation) (hact : s.activations[a]? = some act)
      (hpc : act.pc = .answered ∨ act.pc = .inserted) :
      Move kNumRelays numMessages s (.ret a)
        { s with
          activations := s.activations.eraseIdx a
          replies := s.replies ++ [(act.call,⟨act.request.msgid⟩)] }
  | receive (a j c : ℕ) (act : Activation) (response : Response)
      (hact : s.activations[a]? = some act) (hpc : act.pc = .waiting c)
      (hreply : s.replies[j]? = some (c,response)) :
      Move kNumRelays numMessages s (.receive a j)
        { s with
          activations := s.activations.set a { act with pc := .answered }
          replies := s.replies.eraseIdx j }
  | receiveClient (j c : ℕ) (response : Response) (hclient : s.client = some c)
      (hreply : s.replies[j]? = some (c,response)) :
      Move kNumRelays numMessages s (.receiveClient j)
        { s with client := none, finished := s.finished + 1, replies := s.replies.eraseIdx j }

variable {kNumRelays numMessages : ℕ} {s t : State} {l : Label}

theorem step_move (h : step kNumRelays numMessages s l = some t) :
    Move kNumRelays numMessages s l t := by
  cases l with
  | send now =>
    simp only [step, Option.ite_none_right_eq_some, Option.some.injEq] at h
    exact h.2 ▸ .send now h.1.1 h.1.2
  | dispatch j =>
    cases hrequest : s.requests[j]? with
    | none => simp [step, hrequest] at h
    | some m =>
      cases hport : listening kRelayPortStart kNumRelays m.port with
      | none => simp [step, hrequest, hport] at h
      | some server =>
        simp only [step, hrequest, hport, Option.some.injEq] at h
        exact h ▸ .dispatch j m server hrequest hport
  | forward a =>
    simp only [step] at h
    split at h
    · rename_i call id request origin hact
      cases h
      exact .forward a id _ hact rfl rfl
    · cases h
  | insert a now =>
    simp only [step, insertSample, List.length_append, List.length_singleton] at h
    split at h
    · rename_i call request origin hact
      cases h
      exact .insert a now _ hact rfl rfl
    · cases h
  | report a =>
    simp only [step] at h
    split at h
    · rename_i call request origin hact
      obtain ⟨r,hr,rfl⟩ := Option.map_eq_some_iff.mp h
      exact .report a _ r hact rfl hr
    · cases h
  | ret a =>
    simp only [step] at h
    split at h
    · rename_i call server request origin pc hact
      simp only [Option.ite_none_right_eq_some, Option.some.injEq] at h
      exact h.2 ▸ .ret a _ hact h.1
    · cases h
  | receive a j =>
    simp only [step] at h
    split at h
    · rename_i call server request origin c c' response hact hreply
      simp only [Option.ite_none_right_eq_some, Option.some.injEq] at h
      obtain ⟨rfl,rfl⟩ := h
      exact .receive a j c _ response hact rfl hreply
    · cases h
  | receiveClient j =>
    simp only [step] at h
    split at h
    · rename_i c c' response hclient hreply
      simp only [Option.ite_none_right_eq_some, Option.some.injEq] at h
      obtain ⟨rfl,rfl⟩ := h
      exact .receiveClient j c response hclient hreply
    · cases h

end RelayBench.GrpcThreads
