import RelayBench.ThriftRs.Callers

/-! # The concurrent chain and the sequential one

The calls of any concurrent run, made one after the other in the order in which the sink
pushed them, are answered alike and leave the sink with the same vector and reports.
-/
namespace RelayBench.ThriftRs
open Execution RemoteCall Function
variable {numRelays numMessages callers : ℕ} {s t : Threads}

/-- The sink after pushing these latencies, from what it had before. -/
def pushAll (numMessages : ℕ) (sink : List ℤ × List Report × List ℤ) (vs : List ℤ) :
    List ℤ × List Report × List ℤ := vs.foldl (fun sink v => push numMessages v sink) sink

/-- The sink holds what the pushed latencies leave one after the other. -/
def InOrder (numMessages : ℕ) (s : Threads) : Prop :=
  s.memory.sink = pushAll numMessages ThriftRs.init.sink (s.pushed.map Prod.snd)

theorem pushAll_snoc (sink : List ℤ × List Report × List ℤ) (vs : List ℤ) (v : ℤ) :
    pushAll numMessages sink (vs ++ [v]) = push numMessages v (pushAll numMessages sink vs) :=
  List.foldl_concat _ _ _ _

theorem threadMove_inOrder (h : InOrder numMessages s)
    (hm : ThreadMove numRelays numMessages s t) : InOrder numMessages t := by
  cases hm with
  | push k j n r v elapsed memory hawaited hworker hk hv hgood hsink =>
    unfold InOrder at h ⊢
    rw [hsink, h, List.map_append, List.map_singleton, pushAll_snoc]
  | _ => exact h

theorem exec_inOrder (hN : numRelays < 2 ^ 31) {ls : List ThreadLabel}
    (h : exec (threadStep numRelays numMessages callers) Threads.init ls = some s) :
    InOrder numMessages s := by
  have hboth : Exclusive numRelays s ∧ InOrder numMessages s := by
    refine @exec_invariant _ _ _ (fun s => Exclusive numRelays s ∧ InOrder numMessages s) _
      ⟨Exclusive.init numRelays,rfl⟩ ?_ ls s h
    rintro t l u ⟨he,ho⟩ hs
    have hm := step_threadMove hN he hs
    exact ⟨threadMove_exclusive he hm,threadMove_inOrder ho hm⟩
  exact hboth.2

/-! ## The same calls one after the other -/

/-- What comes back to calls of the sequential chain, each with the sink's clock reading, and
the last state. -/
def callAll (numRelays numMessages : ℕ) : State → List (Timing × ℕ) → List (Reply ℤ) × State
  | s, [] => ([],s)
  | s, c :: cs =>
    let r := clientBench numRelays numMessages ⟨0,c.2,fun _ => .none⟩ c.1 s
    let rest := callAll numRelays numMessages r.1 cs
    (r.2 :: rest.1,rest.2)

theorem callAll_pushes {elapsed : Request × ℤ → ℕ} {ps : List (Request × ℤ)}
    (hps : ∀ p ∈ ps, latency numRelays (asI64 (elapsed p)) p.1.arg.nanosec = some p.2)
    {s : State} (hs : Unpoisoned s) :
    let r := callAll numRelays numMessages s (ps.map (fun p => (p.1.arg,elapsed p)))
    r.1 = ps.map (fun _ => .replied 0) ∧
      r.2.sink = pushAll numMessages s.sink (ps.map Prod.snd) := by
  induction ps generalizing s with
  | nil => exact ⟨rfl,rfl⟩
  | cons p ps ih =>
    have hfirst := @clientBench_pushes numRelays numMessages (elapsed p) 0 p.1.arg p.2
      (hps p List.mem_cons_self) s hs
    rcases hc : clientBench numRelays numMessages ⟨0,elapsed p,fun _ => .none⟩ p.1.arg s with ⟨t,r⟩
    rw [hc] at hfirst
    obtain ⟨hgood,hsink,rfl⟩ := hfirst
    have hrest := ih (fun q hq => hps q (List.mem_cons_of_mem p hq)) hgood
    simp only [List.map_cons, callAll, hc, hrest.1, hrest.2, hsink, true_and]
    rfl

/-- Every concurrent run has a sequential one of the calls it has pushed. -/
theorem exec_linearised (hN : numRelays < 2 ^ 31) {ls : List ThreadLabel}
    (h : exec (threadStep numRelays numMessages callers) Threads.init ls = some s) :
    ∃ elapsed : Request × ℤ → ℕ,
      let r := callAll numRelays numMessages ThriftRs.init
        (s.pushed.map (fun p => (p.1.arg,elapsed p)))
      r.1 = s.pushed.map (fun _ => .replied 0) ∧ r.2.sink = s.memory.sink := by
  have hlatency := (exec_accounts hN h).latency
  choose! elapsed helapsed using hlatency
  have hinit : Unpoisoned ThriftRs.init := ⟨fun _ => rfl,rfl⟩
  obtain ⟨hreplies,hsink⟩ := @callAll_pushes numRelays numMessages elapsed s.pushed helapsed _ hinit
  exact ⟨elapsed,hreplies,hsink.trans (exec_inOrder hN h).symm⟩

/-! ## The order of the calls -/

theorem exec_pushed (hN : numRelays < 2 ^ 31) (he : Exclusive numRelays s) {ks : List ThreadLabel}
    (h : exec (threadStep numRelays numMessages callers) s ks = some t) :
    s.pushedRequests <+: t.pushedRequests := by
  have hboth : Exclusive numRelays t ∧ s.pushedRequests <+: t.pushedRequests := by
    refine @exec_invariant _ _ _ (fun t => Exclusive numRelays t ∧
      s.pushedRequests <+: t.pushedRequests) _ ⟨he,List.prefix_refl _⟩ ?_ ks t h
    rintro t l u ⟨he,hbegun⟩ hs
    have hm := step_threadMove hN he hs
    refine ⟨threadMove_exclusive he hm,hbegun.trans ?_⟩
    cases hm with
    | push k j n r v elapsed memory hawaited hworker hk hv hgood hsink =>
      simp [Threads.pushedRequests]
    | _ => exact List.prefix_refl _
  exact hboth.2

theorem idxOf_lt_of_prefix {α : Type*} [DecidableEq α] {early all : List α} {a b : α}
    (h : early <+: all) (ha : a ∈ early) (hb : b ∉ early) : all.idxOf a < all.idxOf b := by
  obtain ⟨rest,rfl⟩ := h
  rw [List.idxOf_append_of_mem ha, List.idxOf_append_of_notMem hb]
  have hlt := List.idxOf_lt_length_of_mem ha
  omega

/-- One order of the calls for a run that has come from `s` to `t`. -/
structure Linearised (numRelays numMessages : ℕ) (s t : Threads) : Prop where
  /-- Made one after the other in this order, they are answered alike and leave the same sink. -/
  replayed : ∃ elapsed : Request × ℤ → ℕ,
    let r := callAll numRelays numMessages ThriftRs.init
      (t.pushed.map (fun p => (p.1.arg,elapsed p)))
    r.1 = t.pushed.map (fun _ => .replied 0) ∧ r.2.sink = t.memory.sink
  /-- None is there twice, and none of those answered is missing. -/
  once : t.pushedRequests.Nodup ∧ ∀ j, ∀ r ∈ t.answered j, r ∈ t.pushedRequests
  /-- A call that was answered before another was made comes before it. -/
  inTime : ∀ j, ∀ r ∈ s.answered j, ∀ r' ∈ t.pushedRequests, r' ∉ s.sent r'.caller →
    t.pushedRequests.idxOf r < t.pushedRequests.idxOf r'

theorem runs_linearised (hN : numRelays < 2 ^ 31) {ls ks : List ThreadLabel}
    (hs : exec (threadStep numRelays numMessages callers) Threads.init ls = some s)
    (ht : exec (threadStep numRelays numMessages callers) s ks = some t) :
    Linearised numRelays numMessages s t := by
  have hrun := exec_trans hs ht
  have hearly := exec_accounts hN hs
  have hlate := exec_accounts hN hrun
  refine ⟨exec_linearised hN hrun,⟨hlate.nodup,hlate.answered⟩,fun j r hr r' _ hsent => ?_⟩
  apply idxOf_lt_of_prefix (exec_pushed hN (exec_exclusive hN hs) ht) (hearly.answered j r hr)
  intro hmem
  exact hsent (hearly.issued r' hmem)

/-- The first of two callers is served after the second, which has its reply. -/
def firstServed : List ThreadLabel :=
  [.run 0 0 0,.run 0 0 0,.run 1 0 35,.run 1 0 35,.run 1 0 35,.run 1 0 35]

theorem runs_linearised_twoCallers : ∃ s t,
    exec (threadStep 1 2 2) Threads.init twoCallers = some s ∧
      exec (threadStep 1 2 2) s firstServed = some t ∧
      t.pushedRequests = [⟨1,0,⟨0,5,"client"⟩⟩,⟨0,0,⟨0,5,"client"⟩⟩] ∧ Linearised 1 2 s t := by
  have hrun : (exec (threadStep 1 2 2) Threads.init (twoCallers ++ firstServed)).map
      Threads.pushedRequests = some [⟨1,0,⟨0,5,"client"⟩⟩,⟨0,0,⟨0,5,"client"⟩⟩] := rfl
  obtain ⟨t,ht,hpushed⟩ := Option.map_eq_some_iff.mp hrun
  rw [exec_append] at ht
  obtain ⟨s,hs,ht⟩ := Option.bind_eq_some_iff.mp ht
  exact ⟨s,t,hs,ht,hpushed,runs_linearised (by norm_num) hs ht⟩

end RelayBench.ThriftRs
