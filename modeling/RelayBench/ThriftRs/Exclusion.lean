import RelayBench.ThriftRs.Faultless
import RelayBench.ThriftRs.Threads

/-! # One request at a time on every connection

A connection is quiet, or carries the one call that its client waits for: as a request, in
the hands of its worker, or as a reply with the sequence number the client expects. A
relay's client waits only under the relay's mutex, so its hop carries one call as well.
-/
namespace RelayBench.ThriftRs
open Execution RemoteCall Function
variable {numRelays numMessages callers : ℕ} {s t : Threads} {l : ThreadLabel}

/-! ## The invariant -/

/-- The worker serves this call and will answer with this sequence number. -/
inductive Serves (numRelays k : ℕ) (r : Request) (sequenceNumber : ℤ) : Pc → Prop
  | handling (arg : Timing) (harg : arg.nanosec = r.arg.nanosec) :
      Serves numRelays k r sequenceNumber (.handling r sequenceNumber arg)
  | calling (hk : k < numRelays) (arg : Timing) (harg : arg.nanosec = r.arg.nanosec) :
      Serves numRelays k r sequenceNumber (.calling r sequenceNumber arg)
  | awaiting (hk : k < numRelays) :
      Serves numRelays k r sequenceNumber (.awaiting r sequenceNumber)
  | locking (hk : k = numRelays) (v : ℤ) (elapsed : ℕ)
      (hv : latency numRelays (asI64 elapsed) r.arg.nanosec = some v) :
      Serves numRelays k r sequenceNumber (.locking r sequenceNumber v)
  | pushing (hk : k = numRelays) (v : ℤ) (elapsed : ℕ)
      (hv : latency numRelays (asI64 elapsed) r.arg.nanosec = some v) :
      Serves numRelays k r sequenceNumber (.pushing r sequenceNumber v)
  | unlocking : Serves numRelays k r sequenceNumber (.unlocking r sequenceNumber)
  | replying : Serves numRelays k r sequenceNumber (.replying r (okReply sequenceNumber))

/-- The connection of a client that waits for this call, or for none. -/
inductive Exchange (numRelays k : ℕ) : Option Request → Connection → Prop
  | quiet (sequenceNumber : ℤ) : Exchange numRelays k none ⟨sequenceNumber,[],[],.idle⟩
  | requested (r : Request) (sequenceNumber : ℤ) (arg : Timing)
      (harg : arg.nanosec = r.arg.nanosec) : Exchange numRelays k (some r)
        ⟨sequenceNumber,[⟨r,⟨⟨"bench",.call,sequenceNumber⟩,arg⟩⟩],[],.idle⟩
  | served (r : Request) (sequenceNumber : ℤ) (pc : Pc)
      (hpc : Serves numRelays k r sequenceNumber pc) :
      Exchange numRelays k (some r) ⟨sequenceNumber,[],[],pc⟩
  | replied (r : Request) (sequenceNumber : ℤ) : Exchange numRelays k (some r)
      ⟨sequenceNumber,[],[⟨r,okReply sequenceNumber⟩],.idle⟩

/-- The holder of a server's mutex is the worker at a statement under it. -/
def Mutex (s : Threads) : Prop :=
  ∀ k j, (s.connection (k,j)).worker.Inside ↔ s.holder k = some j

structure Exclusive (numRelays : ℕ) (s : Threads) : Prop where
  exchange : ∀ k j, Exchange numRelays k (s.awaited k j) (s.connection (k,j))
  mutex : Mutex s
  caller : ∀ j, s.caller j ≠ .panicked
  unpoisoned : Unpoisoned s.memory

theorem Exclusive.init (numRelays : ℕ) : Exclusive numRelays Threads.init where
  exchange k j := by
    have hawaited : Threads.init.awaited k j = none := by
      rcases k with _ | k
      · rfl
      · rcases j with _ | j <;> rfl
    rw [hawaited]
    exact .quiet 0
  mutex k j := by simp [Threads.init, Pc.Inside]
  caller j := by simp [Threads.init]
  unpoisoned := ⟨fun _ => rfl,rfl⟩

theorem Pc.inside_of_awaited {pc : Pc} {r : Request} (h : pc.awaited = some r) : pc.Inside := by
  cases pc with
  | awaiting r sequenceNumber => trivial
  | _ => simp [Pc.awaited] at h

theorem Mutex.calling_iff (h : Mutex s) {k : ℕ} {r : Request} :
    s.calling k = some r ↔ ∃ j, (s.connection (k,j)).worker.awaited = some r := by
  unfold Threads.calling
  rw [Option.bind_eq_some_iff]
  constructor
  · rintro ⟨j,_,hj⟩
    exact ⟨j,hj⟩
  · rintro ⟨j,hj⟩
    exact ⟨j,(h k j).mp (Pc.inside_of_awaited hj),hj⟩

/-- A busy worker serves the call its client waits for. -/
theorem Exclusive.of_worker (h : Exclusive numRelays s) {k j : ℕ} {pc : Pc}
    (hpc : (s.connection (k,j)).worker = pc) (hne : pc ≠ .idle) :
    ∃ r sequenceNumber, s.awaited k j = some r ∧
      s.connection (k,j) = ⟨sequenceNumber,[],[],pc⟩ ∧ Serves numRelays k r sequenceNumber pc := by
  have hexchange := h.exchange k j
  subst hpc
  generalize s.awaited k j = o at hexchange
  generalize s.connection (k,j) = c at hexchange hne
  cases hexchange with
  | served r sequenceNumber pc hpc => exact ⟨r,sequenceNumber,rfl,rfl,hpc⟩
  | _ => exact absurd rfl hne

theorem Exclusive.lt_of_calling (h : Exclusive numRelays s) {k : ℕ} {r : Request}
    (hr : s.calling k = some r) : k < numRelays := by
  obtain ⟨j,hj⟩ := h.mutex.calling_iff.mp hr
  generalize hpc : (s.connection (k,j)).worker = pc at hj
  have hne : pc ≠ .idle := by
    rintro rfl
    simp [Pc.awaited] at hj
  obtain ⟨_,_,_,_,hserves⟩ := h.of_worker hpc hne
  cases hserves with
  | awaiting hk => exact hk
  | _ => simp [Pc.awaited] at hj

/-- Only the connections of the servers that exist carry calls. -/
theorem Exclusive.le_of_awaited (h : Exclusive numRelays s) {k j : ℕ} {r : Request}
    (hr : s.awaited k j = some r) : k ≤ numRelays := by
  rcases k with _ | k
  · exact Nat.zero_le _
  · rcases j with _ | j
    · exact h.lt_of_calling hr
    · simp [Threads.awaited] at hr

/-! ## What a step does -/

/-- The request of the next call of caller `j`. -/
def Threads.nextRequest (s : Threads) (j : ℕ) (arg : Timing) : Request := ⟨j,(s.sent j).length,arg⟩

/-- The steps of a chain in which every connection carries one call at most. -/
inductive ThreadMove (numRelays numMessages : ℕ) (s : Threads) : Threads → Prop
  | call (j : ℕ) (arg : Timing) (n : ℤ) (hcaller : s.caller j = .idle)
      (hquiet : s.connection (0,j) = ⟨n,[],[],.idle⟩) :
      ThreadMove numRelays numMessages s
        { s.put 0 j ((⟨n,[],[],.idle⟩ : Connection).send (s.nextRequest j arg) arg) with
          caller := update s.caller j (.waiting (s.nextRequest j arg))
          sent := update s.sent j (s.sent j ++ [s.nextRequest j arg]) }
  | receive (j : ℕ) (n : ℤ) (r : Request) (hcaller : s.caller j = .waiting r)
      (hreplied : s.connection (0,j) = ⟨n,[],[⟨r,okReply n⟩],.idle⟩) :
      ThreadMove numRelays numMessages s
        { s.put 0 j ⟨n,[],[],.idle⟩ with
          caller := update s.caller j .idle
          answered := update s.answered j (s.answered j ++ [r]) }
  | take (k j : ℕ) (n : ℤ) (r : Request) (arg : Timing) (hawaited : s.awaited k j = some r)
      (hrequested : s.connection (k,j) =
        ⟨n,[⟨r,⟨⟨"bench",.call,n⟩,arg⟩⟩],[],.idle⟩)
      (harg : arg.nanosec = r.arg.nanosec) :
      ThreadMove numRelays numMessages s (s.put k j ⟨n,[],[],.handling r n arg⟩)
  | lockClient (k j : ℕ) (n : ℤ) (r : Request) (arg : Timing) (hawaited : s.awaited k j = some r)
      (hworker : s.connection (k,j) = ⟨n,[],[],.handling r n arg⟩)
      (harg : arg.nanosec = r.arg.nanosec) (hk : k < numRelays) (hfree : s.holder k = none) :
      ThreadMove numRelays numMessages s
        { s.put k j ⟨n,[],[],.calling r n arg⟩ with holder := update s.holder k (some j) }
  | compute (k j : ℕ) (n : ℤ) (r : Request) (arg : Timing) (v : ℤ) (elapsed : ℕ)
      (hawaited : s.awaited k j = some r)
      (hworker : s.connection (k,j) = ⟨n,[],[],.handling r n arg⟩) (hk : k = numRelays)
      (hv : latency numRelays (asI64 elapsed) r.arg.nanosec = some v) :
      ThreadMove numRelays numMessages s (s.put k j ⟨n,[],[],.locking r n v⟩)
  | send (k j : ℕ) (n m : ℤ) (r : Request) (arg : Timing) (hawaited : s.awaited k j = some r)
      (hworker : s.connection (k,j) = ⟨n,[],[],.calling r n arg⟩)
      (harg : arg.nanosec = r.arg.nanosec) (hk : k < numRelays)
      (hquiet : s.connection (k + 1,0) = ⟨m,[],[],.idle⟩) :
      ThreadMove numRelays numMessages s ((s.put k j ⟨n,[],[],.awaiting r n⟩).put (k + 1) 0
        ((⟨m,[],[],.idle⟩ : Connection).send r (relayCopy k arg)))
  | read (k j : ℕ) (n m : ℤ) (r : Request) (hawaited : s.awaited k j = some r)
      (hworker : s.connection (k,j) = ⟨n,[],[],.awaiting r n⟩) (hk : k < numRelays)
      (hreplied : s.connection (k + 1,0) = ⟨m,[],[⟨r,okReply m⟩],.idle⟩) :
      ThreadMove numRelays numMessages s ((s.put k j ⟨n,[],[],.unlocking r n⟩).put (k + 1) 0
        ⟨m,[],[],.idle⟩)
  | lockVec (k j : ℕ) (n : ℤ) (r : Request) (v : ℤ) (elapsed : ℕ)
      (hawaited : s.awaited k j = some r)
      (hworker : s.connection (k,j) = ⟨n,[],[],.locking r n v⟩) (hk : k = numRelays)
      (hv : latency numRelays (asI64 elapsed) r.arg.nanosec = some v)
      (hfree : s.holder k = none) :
      ThreadMove numRelays numMessages s
        { s.put k j ⟨n,[],[],.pushing r n v⟩ with holder := update s.holder k (some j) }
  | push (k j : ℕ) (n : ℤ) (r : Request) (v : ℤ) (elapsed : ℕ) (memory : State)
      (hawaited : s.awaited k j = some r)
      (hworker : s.connection (k,j) = ⟨n,[],[],.pushing r n v⟩) (hk : k = numRelays)
      (hv : latency numRelays (asI64 elapsed) r.arg.nanosec = some v)
      (hgood : Unpoisoned memory) (hsink : memory.sink = push numMessages v s.memory.sink) :
      ThreadMove numRelays numMessages s
        { s.put k j ⟨n,[],[],.unlocking r n⟩ with
          memory := memory, pushed := s.pushed ++ [(r,v)] }
  | unlock (k j : ℕ) (n : ℤ) (r : Request) (hawaited : s.awaited k j = some r)
      (hworker : s.connection (k,j) = ⟨n,[],[],.unlocking r n⟩) :
      ThreadMove numRelays numMessages s
        { s.put k j ⟨n,[],[],.replying r (okReply n)⟩ with holder := update s.holder k none }
  | reply (k j : ℕ) (n : ℤ) (r : Request) (hawaited : s.awaited k j = some r)
      (hworker : s.connection (k,j) = ⟨n,[],[],.replying r (okReply n)⟩) :
      ThreadMove numRelays numMessages s (s.put k j ⟨n,[],[⟨r,okReply n⟩],.idle⟩)

theorem readReply_okReply (n : ℤ) : readReply n (okReply n) = .ok 0 := by
  simp [readReply, okReply]

theorem Exclusive.quiet (h : Exclusive numRelays s) {k j : ℕ} (hnone : s.awaited k j = none) :
    ∃ n, s.connection (k,j) = ⟨n,[],[],.idle⟩ := by
  have hexchange := h.exchange k j
  rw [hnone] at hexchange
  generalize s.connection (k,j) = c at hexchange
  cases hexchange with
  | quiet n => exact ⟨n,rfl⟩

/-- A worker under the mutex of its server is the one that decides what the server awaits. -/
theorem Exclusive.calling_eq (h : Exclusive numRelays s) {k j : ℕ} {pc : Pc}
    (hpc : (s.connection (k,j)).worker = pc) (hinside : pc.Inside) :
    s.calling k = pc.awaited := by
  have hholder := (h.mutex k j).mp (hpc ▸ hinside)
  rw [Threads.calling, hholder, Option.bind_some, hpc]

theorem worker_move (hN : numRelays < 2 ^ 31) (h : Exclusive numRelays s) {k j elapsed : ℕ}
    (hs : workerStep numRelays numMessages s k j elapsed = some t) : ThreadMove numRelays numMessages s t := by
  have hexchange := h.exchange k j
  generalize hawaited : s.awaited k j = o at hexchange
  generalize hc : s.connection (k,j) = c at hexchange
  cases hexchange with
  | quiet n => simp [workerStep, hc] at hs
  | replied r n => simp [workerStep, hc] at hs
  | requested r n arg harg =>
    simp only [workerStep, hc, received, if_true, Option.some.injEq] at hs
    exact hs ▸ .take k j n r arg hawaited hc harg
  | served r n pc hpc =>
    cases hpc with
    | handling arg harg =>
      by_cases hk : k < numRelays
      · simp only [workerStep, hc, if_pos hk, h.unpoisoned.client, Bool.false_eq_true, if_false,
          Option.ite_none_right_eq_some, Option.some.injEq, Threads.goto] at hs
        exact hs.2 ▸ .lockClient k j n r arg hawaited hc harg hk hs.1
      · obtain ⟨v,hv⟩ := latency_isSome hN (asI64 elapsed) r.arg.nanosec
        simp only [workerStep, hc, if_neg hk, harg, hv, Option.some.injEq, Threads.goto] at hs
        have hle := h.le_of_awaited hawaited
        exact hs ▸ .compute k j n r arg v elapsed hawaited hc (by omega) hv
    | calling hk arg harg =>
      have hpc : (s.connection (k,j)).worker = .calling r n arg := by rw [hc]
      have hcalling : s.awaited (k + 1) 0 = none := h.calling_eq hpc trivial
      obtain ⟨m,hm⟩ := h.quiet hcalling
      simp only [workerStep, hc, hm, Option.some.injEq, Threads.goto] at hs
      exact hs ▸ .send k j n m r arg hawaited hc harg hk hm
    | awaiting hk =>
      have hpc : (s.connection (k,j)).worker = .awaiting r n := by rw [hc]
      have hcalling : s.awaited (k + 1) 0 = some r := h.calling_eq hpc trivial
      have hnext := h.exchange (k + 1) 0
      rw [hcalling] at hnext
      generalize hm : s.connection (k + 1,0) = next at hnext
      have hother : (k,j) ≠ (k + 1,0) := by simp
      cases hnext with
      | requested _ _ arg harg => simp [workerStep, hc, hm] at hs
      | served _ _ pc hpc => simp [workerStep, hc, hm] at hs
      | replied _ m =>
        simp only [workerStep, hc, hm, readReply_okReply, Option.some.injEq, Threads.goto,
          Threads.put, update_of_ne hother, update_comm hother.symm] at hs
        exact hs ▸ .read k j n m r hawaited hc hk hm
    | locking hk v elapsed hv =>
      simp only [workerStep, hc, Option.ite_none_right_eq_some, Option.some.injEq,
        Threads.goto] at hs
      exact hs.2 ▸ .lockVec k j n r v elapsed hawaited hc hk hv hs.1
    | pushing hk v elapsed hv =>
      obtain ⟨memory,hpush,hgood,hsink⟩ := @pushLatency_unpoisoned numMessages _ h.unpoisoned v
      simp only [workerStep, hc, hpush, Option.some.injEq, Threads.goto] at hs
      exact hs ▸ .push k j n r v elapsed memory hawaited hc hk hv hgood hsink
    | unlocking =>
      simp only [workerStep, hc, Option.some.injEq, Threads.goto] at hs
      exact hs ▸ .unlock k j n r hawaited hc
    | replying =>
      simp only [workerStep, hc, Option.some.injEq, List.nil_append] at hs
      exact hs ▸ .reply k j n r hawaited hc

theorem step_threadMove (hN : numRelays < 2 ^ 31) (h : Exclusive numRelays s)
    (hs : threadStep numRelays numMessages callers s l = some t) : ThreadMove numRelays numMessages s t := by
  cases l with
  | run k j elapsed =>
    simp only [threadStep] at hs
    exact worker_move hN h hs
  | call j arg =>
    cases hcaller : s.caller j with
    | waiting r => simp [threadStep, hcaller] at hs
    | panicked => simp [threadStep, hcaller] at hs
    | idle =>
      have hnone : s.awaited 0 j = none := by simp [Threads.awaited, Caller.awaited, hcaller]
      obtain ⟨n,hn⟩ := h.quiet hnone
      simp only [threadStep, hcaller, hn, Option.ite_none_right_eq_some, Option.some.injEq] at hs
      rw [← hs.2]
      exact .call j arg n hcaller hn
  | receive j =>
    cases hcaller : s.caller j with
    | idle => simp [threadStep, hcaller] at hs
    | panicked => simp [threadStep, hcaller] at hs
    | waiting r =>
      have hsome : s.awaited 0 j = some r := by simp [Threads.awaited, Caller.awaited, hcaller]
      have hexchange := h.exchange 0 j
      rw [hsome] at hexchange
      generalize hc : s.connection (0,j) = c at hexchange
      cases hexchange with
      | requested _ _ arg harg => simp [threadStep, hcaller, hc] at hs
      | served _ _ pc hpc => simp [threadStep, hcaller, hc] at hs
      | replied _ n =>
        simp only [threadStep, hcaller, hc, readReply_okReply, Option.some.injEq] at hs
        exact hs ▸ .receive j n r hcaller hc

/-! ## Every step keeps the invariant -/

@[simp] theorem put_connection_self (s : Threads) (k j : ℕ) (c : Connection) :
    (s.put k j c).connection (k,j) = c := update_self _ _ _

theorem put_connection_of_ne (s : Threads) {k j k' j' : ℕ} (c : Connection)
    (hne : (k',j') ≠ (k,j)) : (s.put k j c).connection (k',j') = s.connection (k',j') :=
  update_of_ne hne _ _

theorem exchange_put {c : Connection} {k j : ℕ}
    (h : ∀ k j, Exchange numRelays k (s.awaited k j) (s.connection (k,j)))
    (hc : Exchange numRelays k (s.awaited k j) c) (k' j' : ℕ) :
    Exchange numRelays k' (s.awaited k' j') ((s.put k j c).connection (k',j')) := by
  by_cases he : (k',j') = (k,j)
  · cases he
    rwa [put_connection_self]
  · rw [put_connection_of_ne s c he]
    exact h k' j'

theorem Mutex.stay (h : Mutex s) {k j : ℕ} {c : Connection}
    (hsame : c.worker.Inside ↔ (s.connection (k,j)).worker.Inside) : Mutex (s.put k j c) := by
  intro k' j'
  by_cases he : (k',j') = (k,j)
  · cases he
    rw [put_connection_self, hsame]
    exact h k j
  · rw [put_connection_of_ne s c he]
    exact h k' j'

theorem Mutex.lock (h : Mutex s) {k j : ℕ} {c : Connection} (hfree : s.holder k = none)
    (hin : c.worker.Inside) :
    Mutex { s.put k j c with holder := update s.holder k (some j) } := by
  intro k' j'
  change ((s.put k j c).connection (k',j')).worker.Inside ↔
    update s.holder k (some j) k' = some j'
  by_cases he : (k',j') = (k,j)
  · cases he
    simpa using hin
  · rw [put_connection_of_ne s c he, h k' j']
    by_cases hk : k' = k
    · subst hk
      have hj : j ≠ j' := by
        rintro rfl
        exact he rfl
      simp [hfree, hj]
    · rw [update_of_ne hk]

theorem Mutex.unlock (h : Mutex s) {k j : ℕ} {c : Connection} (hholder : s.holder k = some j)
    (hout : ¬ c.worker.Inside) : Mutex { s.put k j c with holder := update s.holder k none } := by
  intro k' j'
  change ((s.put k j c).connection (k',j')).worker.Inside ↔ update s.holder k none k' = some j'
  by_cases he : (k',j') = (k,j)
  · cases he
    simpa using hout
  · rw [put_connection_of_ne s c he, h k' j']
    by_cases hk : k' = k
    · subst hk
      have hj : j ≠ j' := by
        rintro rfl
        exact he rfl
      simp [hholder, hj]
    · rw [update_of_ne hk]

/-- What the servers await depends on their workers alone. -/
theorem Mutex.calling_congr (h : Mutex s) (ht : Mutex t) {k : ℕ}
    (hsame : ∀ j, (t.connection (k,j)).worker.awaited = (s.connection (k,j)).worker.awaited) :
    t.calling k = s.calling k := by
  apply Option.ext
  intro r
  simp only [h.calling_iff, ht.calling_iff, hsame]

theorem awaited_congr (hcaller : t.caller = s.caller) (hcalling : ∀ k, t.calling k = s.calling k) :
    t.awaited = s.awaited := by
  funext k j
  rcases k with _ | k
  · rw [Threads.awaited, Threads.awaited, hcaller]
  · rcases j with _ | j
    · exact hcalling k
    · rfl

/-- A worker moves on without sending or reading. -/
theorem Exclusive.work (h : Exclusive numRelays s) {k j : ℕ} {c : Connection}
    (hconnection : t.connection = (s.put k j c).connection) (hcaller : t.caller = s.caller)
    (hmutex : Mutex t) (hsame : c.worker.awaited = (s.connection (k,j)).worker.awaited)
    (hc : Exchange numRelays k (s.awaited k j) c)
    (hunpoisoned : Unpoisoned t.memory) :
    Exclusive numRelays t := by
  have hworker : ∀ k' j', (t.connection (k',j')).worker.awaited =
      (s.connection (k',j')).worker.awaited := by
    intro k' j'
    rw [hconnection]
    by_cases he : (k',j') = (k,j)
    · cases he
      rw [put_connection_self, hsame]
    · rw [put_connection_of_ne s c he]
  have hawaited : t.awaited = s.awaited :=
    awaited_congr hcaller (fun k' => h.mutex.calling_congr hmutex (hworker k'))
  refine ⟨fun k' j' => ?_,hmutex,fun i => ?_,hunpoisoned⟩
  · rw [hawaited, hconnection]
    exact exchange_put h.exchange hc k' j'
  · rw [hcaller]
    exact h.caller i

/-- A caller begins or ends a call. -/
theorem Exclusive.client (h : Exclusive numRelays s) {j : ℕ} {c : Connection} {caller : Caller}
    (hconnection : t.connection = (s.put 0 j c).connection)
    (hcaller : t.caller = update s.caller j caller) (hmutex : Mutex t)
    (hsame : c.worker.awaited = (s.connection (0,j)).worker.awaited)
    (hc : Exchange numRelays 0 caller.awaited c) (hgood : caller ≠ .panicked)
    (hmemory : t.memory = s.memory) : Exclusive numRelays t := by
  have hcalling : ∀ k, t.calling k = s.calling k := by
    intro k
    refine h.mutex.calling_congr hmutex (fun j' => ?_)
    rw [hconnection]
    by_cases he : (k,j') = (0,j)
    · cases he
      rw [put_connection_self, hsame]
    · rw [put_connection_of_ne s c he]
  refine ⟨fun k' j' => ?_,hmutex,fun i => ?_,hmemory ▸ h.unpoisoned⟩
  · rw [hconnection]
    by_cases he : (k',j') = (0,j)
    · cases he
      rw [put_connection_self, Threads.awaited, hcaller, update_self]
      exact hc
    · have hawaited : t.awaited k' j' = s.awaited k' j' := by
        rcases k' with _ | k'
        · have hj : j' ≠ j := fun hj => he (by rw [hj])
          rw [Threads.awaited, Threads.awaited, hcaller, update_of_ne hj]
        · rcases j' with _ | j'
          · exact hcalling k'
          · rfl
      rw [put_connection_of_ne s c he, hawaited]
      exact h.exchange k' j'
  · rw [hcaller]
    by_cases hi : i = j
    · rwa [hi, update_self]
    · rw [update_of_ne hi]
      exact h.caller i

/-- The holder of a relay's mutex sends or reads on the relay's own connection. -/
theorem Exclusive.hop (h : Exclusive numRelays s) {k j : ℕ} {c c' : Connection}
    (hheld : s.holder k = some j)
    (hin : c.worker.Inside ↔ (s.connection (k,j)).worker.Inside)
    (hidle : (s.connection (k + 1,0)).worker = .idle) (hidle' : c'.worker = .idle)
    (hc : Exchange numRelays k (s.awaited k j) c)
    (hc' : Exchange numRelays (k + 1) c.worker.awaited c') :
    Exclusive numRelays ((s.put k j c).put (k + 1) 0 c') := by
  have hother : (k + 1,0) ≠ (k,j) := by simp
  have hmutex : Mutex ((s.put k j c).put (k + 1) 0 c') := by
    refine (h.mutex.stay hin).stay ?_
    rw [put_connection_of_ne s c hother, hidle, hidle']
  have hconnection {k' j' : ℕ} (he : (k',j') ≠ (k,j)) (he' : (k',j') ≠ (k + 1,0)) :
      ((s.put k j c).put (k + 1) 0 c').connection (k',j') = s.connection (k',j') := by
    rw [put_connection_of_ne _ _ he', put_connection_of_ne _ _ he]
  have hself : ((s.put k j c).put (k + 1) 0 c').connection (k,j) = c := by
    rw [put_connection_of_ne _ _ hother.symm, put_connection_self]
  have hcalling : ((s.put k j c).put (k + 1) 0 c').calling k = c.worker.awaited := by
    have hholder : ((s.put k j c).put (k + 1) 0 c').holder k = some j := hheld
    rw [Threads.calling, hholder, Option.bind_some, hself]
  have hcalling' {k' : ℕ} (hk : k' ≠ k) :
      ((s.put k j c).put (k + 1) 0 c').calling k' = s.calling k' := by
    refine h.mutex.calling_congr hmutex (fun j' => ?_)
    by_cases he : (k',j') = (k + 1,0)
    · cases he
      rw [put_connection_self, hidle, hidle']
    · rw [hconnection (fun e => hk (congrArg Prod.fst e)) he]
  refine ⟨fun k' j' => ?_,hmutex,h.caller,h.unpoisoned⟩
  by_cases hlast : (k',j') = (k + 1,0)
  · cases hlast
    rw [put_connection_self, Threads.awaited, hcalling]
    exact hc'
  · have hawaited : ((s.put k j c).put (k + 1) 0 c').awaited k' j' = s.awaited k' j' := by
      rcases k' with _ | k'
      · rfl
      · rcases j' with _ | j'
        · exact hcalling' (fun hk => hlast (by rw [hk]))
        · rfl
    rw [hawaited]
    by_cases hfirst : (k',j') = (k,j)
    · cases hfirst
      rw [hself]
      exact hc
    · rw [hconnection hfirst hlast]
      exact h.exchange k' j'

theorem threadMove_exclusive (h : Exclusive numRelays s) (hm : ThreadMove numRelays numMessages s t) :
    Exclusive numRelays t := by
  cases hm with
  | call j arg n hcaller hquiet =>
    refine h.client rfl rfl (h.mutex.stay ?_) ?_ ?_ ?_ rfl
    · simp [hquiet, Connection.send, Pc.Inside]
    · simp [hquiet, Connection.send]
    · exact .requested (s.nextRequest j arg) _ arg rfl
    · simp
  | receive j n r hcaller hreplied =>
    have hidle : Caller.idle ≠ .panicked := by simp
    refine h.client rfl rfl (h.mutex.stay ?_) ?_ (.quiet n) hidle rfl
    · simp [hreplied, Pc.Inside]
    · simp [hreplied]
  | take k j n r arg hawaited hrequested harg =>
    refine h.work rfl rfl (h.mutex.stay ?_) ?_ ?_ h.unpoisoned
    · simp [hrequested, Pc.Inside]
    · simp [hrequested, Pc.awaited]
    · rw [hawaited]
      exact .served r n _ (.handling arg harg)
  | lockClient k j n r arg hawaited hworker harg hk hfree =>
    refine h.work rfl rfl (h.mutex.lock hfree trivial) ?_ ?_ h.unpoisoned
    · simp [hworker, Pc.awaited]
    · rw [hawaited]
      exact .served r n _ (.calling hk arg harg)
  | compute k j n r arg v elapsed hawaited hworker hk hv =>
    refine h.work rfl rfl (h.mutex.stay ?_) ?_ ?_ h.unpoisoned
    · simp [hworker, Pc.Inside]
    · simp [hworker, Pc.awaited]
    · rw [hawaited]
      exact .served r n _ (.locking hk v elapsed hv)
  | send k j n m r arg hawaited hworker harg hk hquiet =>
    have hholder := (h.mutex k j).mp (by rw [hworker]; trivial)
    refine h.hop hholder ?_ (by rw [hquiet]) rfl ?_ (.requested r _ (relayCopy k arg) harg)
    · simp [hworker, Pc.Inside]
    · rw [hawaited]
      exact .served r n _ (.awaiting hk)
  | read k j n m r hawaited hworker hk hreplied =>
    have hholder := (h.mutex k j).mp (by rw [hworker]; trivial)
    refine h.hop hholder ?_ (by rw [hreplied]) rfl ?_ (.quiet m)
    · simp [hworker, Pc.Inside]
    · rw [hawaited]
      exact .served r n _ .unlocking
  | lockVec k j n r v elapsed hawaited hworker hk hv hfree =>
    refine h.work rfl rfl (h.mutex.lock hfree trivial) ?_ ?_ h.unpoisoned
    · simp [hworker, Pc.awaited]
    · rw [hawaited]
      exact .served r n _ (.pushing hk v elapsed hv)
  | push k j n r v elapsed memory hawaited hworker hk hv hgood hsink =>
    refine h.work rfl rfl (h.mutex.stay (c := ⟨n,[],[],.unlocking r n⟩) ?_) ?_ ?_ hgood
    · simp [hworker, Pc.Inside]
    · simp [hworker, Pc.awaited]
    · rw [hawaited]
      exact .served r n _ .unlocking
  | unlock k j n r hawaited hworker =>
    have hholder := (h.mutex k j).mp (by rw [hworker]; trivial)
    refine h.work rfl rfl (h.mutex.unlock hholder (by simp [Pc.Inside])) ?_ ?_ h.unpoisoned
    · simp [hworker, Pc.awaited]
    · rw [hawaited]
      exact .served r n _ .replying
  | reply k j n r hawaited hworker =>
    refine h.work rfl rfl (h.mutex.stay ?_) ?_ ?_ h.unpoisoned
    · simp [hworker, Pc.Inside]
    · simp [hworker, Pc.awaited]
    · rw [hawaited]
      exact .replied r n

theorem exec_exclusive (hN : numRelays < 2 ^ 31) {ls : List ThreadLabel}
    (h : exec (threadStep numRelays numMessages callers) Threads.init ls = some s) :
    Exclusive numRelays s :=
  exec_invariant (Exclusive.init numRelays)
    (fun _ _ _ hi hs => threadMove_exclusive hi (step_threadMove hN hi hs)) h

end RelayBench.ThriftRs
