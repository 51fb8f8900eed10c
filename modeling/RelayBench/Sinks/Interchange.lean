import RelayBench.Pnode.Model
import RelayBench.Psrv.Model
import RelayBench.Grpc.Model
import RelayBench.ThriftCpp.Model
import RelayBench.ThriftRs.Model
import RelayBench.Zenoh.Model

/-! # The C++ and the Rust sinks fed the same samples

A C++ sink inserts in an unordered multiset, whose iteration order is arbitrary, reports
when its size is not below the threshold and exits. A Rust sink pushes to a vector, reports
when its length equals the threshold and clears it; the one of zenoh then returns. The sinks
of the six programs are steps of these two machines.
-/
namespace RelayBench.Sinks
open Function
variable {numMessages : ℕ}

/-- An iteration order of the unordered multiset, of what was inserted in this order. -/
structure IterationOrder where
  iterate : List ℤ → List ℤ
  perm : ∀ data, (iterate data).Perm data

def insertionOrder : IterationOrder := ⟨id,fun _ => .refl _⟩

theorem printStats_iterate (order : IterationOrder) (data : List ℤ) :
    printStats (order.iterate data) = printStats data := printStats_congr (order.perm data)

structure CppSink where
  data : List ℤ
  reports : List Report
  exited : Bool
deriving DecidableEq, Repr

def CppSink.init : CppSink := ⟨[],[],false⟩

/-- One sample: insert it, and at the threshold copy to a vector, sort, report and exit. -/
def CppSink.insert (order : IterationOrder) (numMessages : ℕ) (s : CppSink) (v : ℤ) : CppSink :=
  if s.exited then s
  else
    let data := s.data ++ [v]
    if numMessages ≤ data.length then
      ⟨data,s.reports ++ (printStats (order.iterate data)).toList,true⟩
    else ⟨data,s.reports,false⟩

structure RsSink where
  latencyVec : List ℤ
  reports : List Report
  returned : Bool
deriving DecidableEq, Repr

def RsSink.init : RsSink := ⟨[],[],false⟩

/-- One sample: push it, and at the threshold sort, report and clear; `returns` says whether
the sink's loop ends there. -/
def RsSink.push (returns : Bool) (numMessages : ℕ) (s : RsSink) (v : ℤ) : RsSink :=
  if s.returned then s
  else
    let vec := s.latencyVec ++ [v]
    if vec.length = numMessages then ⟨[],s.reports ++ (printStats vec).toList,returns⟩
    else ⟨vec,s.reports,false⟩

/-! ## Runs -/

section Programs
variable {kNumRelays : ℕ} {now v : ℤ}

theorem pnode_insert {s t : Pnode.State} {m : Pnode.Message} (hrun : s.exited = false)
    (h : s.listenSink kNumRelays numMessages m now = some t) :
    CppSink.insert insertionOrder numMessages ⟨s.data,s.reports,s.exited⟩
      (nanosecPerHop kNumRelays now m.timing.nanosec) = ⟨t.data,t.reports,t.exited⟩ := by
  simp only [Pnode.State.listenSink] at h
  simp only [CppSink.insert, hrun, Bool.false_eq_true, if_false]
  split at h
  · rename_i hfull
    obtain ⟨r,hr,rfl⟩ := Option.map_eq_some_iff.mp h
    rw [if_pos hfull, printStats_iterate, hr]
    rfl
  · rename_i hlow
    cases h
    rw [if_neg hlow, hrun]

theorem psrv_insert {s t : Psrv.State} {request : Timing} (hrun : s.exited = false)
    (h : s.sinkCallback kNumRelays numMessages request now = some t) :
    CppSink.insert insertionOrder numMessages ⟨s.data,s.reports,s.exited⟩
      (nanosecPerHop kNumRelays now request.nanosec) = ⟨t.data,t.reports,t.exited⟩ := by
  simp only [Psrv.State.sinkCallback] at h
  simp only [CppSink.insert, hrun, Bool.false_eq_true, if_false]
  split at h
  · rename_i hfull
    obtain ⟨r,hr,rfl⟩ := Option.map_eq_some_iff.mp h
    rw [if_pos hfull, printStats_iterate, hr]
    rfl
  · rename_i hlow
    cases h
    rw [if_neg hlow, hrun]

theorem grpc_insert {s t : Grpc.State} {request : Timing} {reply : RemoteCall.Reply Grpc.Response}
    (h : Grpc.sinkBench kNumRelays numMessages now request s = (t,reply)) :
    CppSink.insert insertionOrder numMessages ⟨s.data,s.reports,false⟩
      (nanosecPerHop kNumRelays now request.nanosec) =
        ⟨t.data,t.reports,decide (reply = .exited)⟩ := by
  have hdata : Grpc.insertSample kNumRelays now request s.data =
      s.data ++ [nanosecPerHop kNumRelays now request.nanosec] := rfl
  simp only [CppSink.insert, Bool.false_eq_true, if_false, printStats_iterate, ← hdata]
  simp only [Grpc.sinkBench] at h
  split at h
  · rename_i hfull
    cases h
    rw [if_pos hfull]
    rfl
  · rename_i hlow
    cases h
    rw [if_neg hlow]
    rfl

theorem thriftCpp_insert {s t : ThriftCpp.State} {arg : Timing} {reply : RemoteCall.Reply ℤ}
    (h : ThriftCpp.sinkBench kNumRelays numMessages now arg s = (t,reply)) :
    CppSink.insert insertionOrder numMessages ⟨s.data,s.reports,false⟩
      (nanosecPerHop kNumRelays now arg.nanosec) =
        ⟨t.data,t.reports,decide (reply = .exited)⟩ := by
  have hdata : s.data ++ [nanosecPerHop kNumRelays now arg.nanosec] =
      (s.enter .sink).data ++ [nanosecPerHop kNumRelays now arg.nanosec] := rfl
  simp only [CppSink.insert, Bool.false_eq_true, if_false, printStats_iterate, hdata]
  simp only [ThriftCpp.sinkBench] at h
  split at h
  · rename_i hfull
    cases h
    rw [if_pos hfull]
    rfl
  · rename_i hlow
    cases h
    rw [if_neg hlow]
    rfl

theorem thriftRs_push {s t : ThriftRs.State} {reply : RemoteCall.Reply (Except String ℤ)}
    (hpoisoned : s.vecPoisoned = false)
    (h : ThriftRs.pushLatency numMessages v s = (t,reply)) :
    RsSink.push false numMessages ⟨s.latencyVec,s.reports,false⟩ v =
      ⟨t.latencyVec,t.reports,false⟩ := by
  have hne := List.append_ne_nil_of_right_ne_nil s.latencyVec (List.cons_ne_nil v [])
  obtain ⟨r,hr,_⟩ := printStats_of_ne_nil hne
  simp only [ThriftRs.pushLatency, hpoisoned, Bool.false_eq_true, if_false, hr] at h
  simp only [RsSink.push, Bool.false_eq_true, if_false, hr]
  split at h <;> cases h <;> simp_all

theorem zenoh_push {s : Zenoh.State} :
    let t := s.pushLatency numMessages v
    RsSink.push true numMessages ⟨s.latencyVec,s.reports,false⟩ v =
      ⟨t.latencyVec,t.reports,decide (t.sink = .returned)⟩ := by
  have hne := List.append_ne_nil_of_right_ne_nil s.latencyVec (List.cons_ne_nil v [])
  obtain ⟨r,hr,_⟩ := printStats_of_ne_nil hne
  simp only [Zenoh.State.pushLatency, RsSink.push, Bool.false_eq_true, if_false, hr]
  split <;> simp

end Programs

/-! ## The first report -/

end RelayBench.Sinks
