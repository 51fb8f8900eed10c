import RelayBench.ThriftRs.Exclusion

/-! # What concurrent callers get from the chain

A call waits at one place at a time: at server `k` while nothing was sent on, else further
down. So the sink pushes it once, its reply goes back the way it came, and the thread that
has it furthest down the chain can always move.
-/
namespace RelayBench.ThriftRs
open Execution RemoteCall Function
variable {numRelays numMessages callers : ℕ} {s t : Threads} {l : ThreadLabel} {r : Request}
  {k j : ℕ}

/-! ## Where a call is -/

theorem Exclusive.of_going (h : Exclusive numRelays s) (hr : r ∈ (s.connection (k,j)).going) :
    s.awaited k j = some r ∧ (s.connection (k,j)).worker.awaited = none := by
  have hexchange := h.exchange k j
  generalize s.awaited k j = o at hexchange
  generalize s.connection (k,j) = c at hexchange hr
  cases hexchange with
  | quiet n => simp [Connection.going, Pc.going] at hr
  | requested r' n arg harg =>
    obtain rfl : r = r' := by simpa [Connection.going, Pc.going] using hr
    exact ⟨rfl,rfl⟩
  | replied r' n => simp [Connection.going, Pc.going] at hr
  | served r' n pc hpc =>
    cases hpc with
    | awaiting hk => simp [Connection.going, Pc.going] at hr
    | unlocking => simp [Connection.going, Pc.going] at hr
    | replying => simp [Connection.going, Pc.going] at hr
    | _ =>
      obtain rfl : r = r' := by simpa [Connection.going, Pc.going] using hr
      exact ⟨rfl,rfl⟩

theorem Exclusive.of_awaiting (h : Exclusive numRelays s)
    (hr : (s.connection (k,j)).worker.awaited = some r) : s.awaited k j = some r := by
  generalize hpc : (s.connection (k,j)).worker = pc at hr
  have hne : pc ≠ .idle := by
    rintro rfl
    simp [Pc.awaited] at hr
  obtain ⟨r',n,hawaited,_,hserves⟩ := h.of_worker hpc hne
  cases hserves with
  | awaiting hk =>
    obtain rfl : r' = r := by simpa [Pc.awaited] using hr
    exact hawaited
  | _ => simp [Pc.awaited] at hr

/-- A call on its way at a server waits at every server before it. -/
theorem Exclusive.awaited_above (h : Exclusive numRelays s) (d : ℕ)
    (hr : s.awaited (k + d + 1) j = some r) :
    ∃ i, (s.connection (k,i)).worker.awaited = some r ∧ s.awaited k i = some r := by
  induction d generalizing j with
  | zero =>
    rcases j with _ | j
    · obtain ⟨i,hi⟩ := h.mutex.calling_iff.mp hr
      exact ⟨i,hi,h.of_awaiting hi⟩
    · simp [Threads.awaited] at hr
  | succ d ih =>
    rcases j with _ | j
    · obtain ⟨i,hi⟩ := h.mutex.calling_iff.mp hr
      exact ih (h.of_awaiting hi)
    · simp [Threads.awaited] at hr

theorem awaited_unique (howner : ∀ j r, s.awaited 0 j = some r → r.caller = j) {i : ℕ}
    (hi : s.awaited k i = some r) (hj : s.awaited k j = some r) : i = j := by
  rcases k with _ | k
  · exact (howner i r hi).symm.trans (howner j r hj)
  · rcases i with _ | i
    · rcases j with _ | j
      · rfl
      · simp [Threads.awaited] at hj
    · simp [Threads.awaited] at hi

theorem Exclusive.going_not_below (h : Exclusive numRelays s)
    (howner : ∀ j r, s.awaited 0 j = some r → r.caller = j) {k' j' : ℕ}
    (hr : r ∈ (s.connection (k,j)).going) (hr' : r ∈ (s.connection (k',j')).going) :
    ¬ k < k' := by
  intro hlt
  obtain ⟨d,rfl⟩ := Nat.exists_eq_add_of_lt hlt
  obtain ⟨hawaited,hnone⟩ := h.of_going hr
  obtain ⟨i,hworker,hi⟩ := h.awaited_above d (h.of_going hr').1
  obtain rfl := awaited_unique howner hi hawaited
  rw [hnone] at hworker
  cases hworker

theorem Exclusive.going_unique (h : Exclusive numRelays s)
    (howner : ∀ j r, s.awaited 0 j = some r → r.caller = j) {k' j' : ℕ}
    (hr : r ∈ (s.connection (k,j)).going) (hr' : r ∈ (s.connection (k',j')).going) :
    (k',j') = (k,j) := by
  have hlow := h.going_not_below howner hr hr'
  have hhigh := h.going_not_below howner hr' hr
  obtain rfl : k' = k := by omega
  rw [awaited_unique howner (h.of_going hr').1 (h.of_going hr).1]

/-! ## Every call is pushed once and answered to its caller -/

/-- The calls the sink has pushed a latency of. -/
def Threads.pushedRequests (s : Threads) : List Request := s.pushed.map Prod.fst

structure Accounts (numRelays : ℕ) (s : Threads) : Prop where
  calls : ∀ j, s.sent j = s.answered j ++ (s.awaited 0 j).toList
  owner : ∀ j, ∀ r ∈ s.sent j, r.caller = j
  numbered : ∀ j, (s.sent j).map Request.nth = List.range (s.sent j).length
  going : ∀ k j, ∀ r ∈ (s.connection (k,j)).going, r ∉ s.pushedRequests
  returning : ∀ k j, ∀ r ∈ (s.connection (k,j)).returning, r ∈ s.pushedRequests
  answered : ∀ j, ∀ r ∈ s.answered j, r ∈ s.pushedRequests
  nodup : s.pushedRequests.Nodup
  issued : ∀ r ∈ s.pushedRequests, r ∈ s.sent r.caller
  latency : ∀ p ∈ s.pushed, ∃ elapsed : ℕ,
    latency numRelays (asI64 elapsed) p.1.arg.nanosec = some p.2

theorem Accounts.init (numRelays : ℕ) : Accounts numRelays Threads.init where
  calls _ := rfl
  owner j r hr := by simp [Threads.init] at hr
  numbered _ := rfl
  going k j r hr := by simp [Threads.init, Connection.going, Pc.going] at hr
  returning k j r hr := by simp [Threads.init, Connection.returning, Pc.returning] at hr
  answered j r hr := by simp [Threads.init] at hr
  nodup := List.nodup_nil
  issued r hr := by simp [Threads.init, Threads.pushedRequests] at hr
  latency p hp := by simp [Threads.init] at hp

theorem Accounts.awaited_sent (h : Accounts numRelays s) (hr : s.awaited 0 j = some r) :
    r ∈ s.sent j := by
  rw [h.calls j, hr]
  simp

theorem Accounts.awaited_owner (h : Accounts numRelays s) (j : ℕ) (r : Request)
    (hr : s.awaited 0 j = some r) : r.caller = j := h.owner j r (h.awaited_sent hr)

/-- A call that is somewhere in the chain was sent by its caller. -/
theorem Accounts.sent_of_awaited (h : Accounts numRelays s) (he : Exclusive numRelays s)
    (hr : s.awaited k j = some r) : r ∈ s.sent r.caller := by
  have hsent {i : ℕ} (hi : s.awaited 0 i = some r) : r ∈ s.sent r.caller := by
    rw [h.awaited_owner i r hi]
    exact h.awaited_sent hi
  rcases k with _ | k
  · exact hsent hr
  · have hr' : s.awaited (0 + k + 1) j = some r := by rwa [Nat.zero_add]
    obtain ⟨i,_,hi⟩ := he.awaited_above k hr'
    exact hsent hi

/-- The next call of a caller is a new one. -/
theorem Accounts.nextRequest_not_mem (h : Accounts numRelays s) (j : ℕ) (arg : Timing) :
    s.nextRequest j arg ∉ s.pushedRequests := by
  intro hmem
  have hsent : s.nextRequest j arg ∈ s.sent j := h.issued _ hmem
  have hnth := List.mem_map_of_mem (f := Request.nth) hsent
  rw [h.numbered j, List.mem_range] at hnth
  exact absurd hnth (lt_irrefl _)

theorem forall_put {P : Connection → Prop} {c : Connection}
    (h : ∀ k j, P (s.connection (k,j))) (hc : P c) (k' j' : ℕ) :
    P ((s.put k j c).connection (k',j')) := by
  by_cases he : (k',j') = (k,j)
  · cases he
    rwa [put_connection_self]
  · rw [put_connection_of_ne s c he]
    exact h k' j'

theorem Accounts.put {c : Connection} (h : Accounts numRelays s)
    (hgoing : ∀ r ∈ c.going, r ∉ s.pushedRequests)
    (hreturning : ∀ r ∈ c.returning, r ∈ s.pushedRequests) :
    Accounts numRelays (s.put k j c) where
  calls := h.calls
  owner := h.owner
  numbered := h.numbered
  going := forall_put (P := fun c => ∀ r ∈ c.going, r ∉ s.pushedRequests) h.going hgoing
  returning := forall_put (P := fun c => ∀ r ∈ c.returning, r ∈ s.pushedRequests) h.returning
    hreturning
  answered := h.answered
  nodup := h.nodup
  issued := h.issued
  latency := h.latency

/-- A worker's statement that neither pushes nor answers. -/
theorem Accounts.work {c : Connection} (h : Accounts numRelays s)
    (hgoing : c.going = (s.connection (k,j)).going)
    (hreturning : c.returning = (s.connection (k,j)).returning) :
    Accounts numRelays (s.put k j c) :=
  h.put (hgoing ▸ h.going k j) (hreturning ▸ h.returning k j)

theorem Accounts.frame (h : Accounts numRelays s) (holder : ℕ → Option ℕ) :
    Accounts numRelays { s with holder := holder } :=
  ⟨h.calls,h.owner,h.numbered,h.going,h.returning,h.answered,h.nodup,h.issued,h.latency⟩

theorem Accounts.call {n : ℤ} {arg : Timing} (h : Accounts numRelays s)
    (hcaller : s.caller j = .idle) :
    Accounts numRelays
      { s.put 0 j ((⟨n,[],[],.idle⟩ : Connection).send (s.nextRequest j arg) arg) with
        caller := update s.caller j (.waiting (s.nextRequest j arg))
        sent := update s.sent j (s.sent j ++ [s.nextRequest j arg]) } := by
  have hput := h.put (k := 0) (j := j)
    (c := (⟨n,[],[],.idle⟩ : Connection).send (s.nextRequest j arg) arg)
    (by
      intro r hr
      obtain rfl : r = s.nextRequest j arg := by
        simpa [Connection.going, Connection.send, Pc.going] using hr
      exact h.nextRequest_not_mem j arg)
    (by
      intro r hr
      simp [Connection.returning, Connection.send, Pc.returning] at hr)
  refine ⟨fun i => ?_,fun i => ?_,fun i => ?_,hput.going,hput.returning,h.answered,h.nodup,
    fun r hr => ?_,h.latency⟩
  · by_cases hi : i = j
    · subst hi
      have hidle := h.calls i
      simp only [Threads.awaited, hcaller, Caller.awaited, Option.toList_none,
        List.append_nil] at hidle
      simp [Threads.awaited, Caller.awaited, hidle, Threads.put]
    · simpa [Threads.awaited, hi, Threads.put] using h.calls i
  · by_cases hi : i = j
    · subst hi
      have howner := h.owner i
      simpa [or_imp, forall_and, Threads.nextRequest] using howner
    · simpa [hi] using h.owner i
  · by_cases hi : i = j
    · subst hi
      simp [h.numbered i, List.range_succ, Threads.nextRequest]
    · simpa [hi] using h.numbered i
  · have hsent := h.issued r hr
    by_cases hi : r.caller = j
    · simp only [hi, update_self]
      exact List.mem_append_left _ (hi ▸ hsent)
    · simpa only [update_of_ne hi] using hsent

theorem Accounts.receive {n : ℤ} (h : Accounts numRelays s) (hcaller : s.caller j = .waiting r)
    (hreplied : s.connection (0,j) = ⟨n,[],[⟨r,okReply n⟩],.idle⟩) :
    Accounts numRelays
      { s.put 0 j ⟨n,[],[],.idle⟩ with
        caller := update s.caller j .idle
        answered := update s.answered j (s.answered j ++ [r]) } := by
  have hput := h.put (k := 0) (j := j) (c := ⟨n,[],[],.idle⟩)
    (by simp [Connection.going, Pc.going]) (by simp [Connection.returning, Pc.returning])
  have hpushed : r ∈ s.pushedRequests := by
    apply h.returning 0 j
    simp [hreplied, Connection.returning, Pc.returning]
  refine ⟨fun i => ?_,h.owner,h.numbered,hput.going,hput.returning,fun i => ?_,h.nodup,h.issued,
    h.latency⟩
  · by_cases hi : i = j
    · subst hi
      have hwaiting := h.calls i
      simp only [Threads.awaited, hcaller, Caller.awaited, Option.toList_some] at hwaiting
      simp [Threads.awaited, Caller.awaited, Threads.put, hwaiting]
    · simpa [Threads.awaited, hi, Threads.put] using h.calls i
  · by_cases hi : i = j
    · subst hi
      have hanswered := h.answered i
      simp only [update_self, List.mem_append, List.mem_singleton]
      rintro r' (hr' | rfl)
      · exact hanswered r' hr'
      · exact hpushed
    · intro r' hr'
      exact h.answered i r' (by simpa only [update_of_ne hi] using hr')

theorem Accounts.push {n v : ℤ} {elapsed : ℕ} {memory : State} (h : Accounts numRelays s)
    (he : Exclusive numRelays s) (hawaited : s.awaited k j = some r)
    (hworker : s.connection (k,j) = ⟨n,[],[],.pushing r n v⟩)
    (hv : RelayBench.latency numRelays (asI64 elapsed) r.arg.nanosec = some v) :
    Accounts numRelays
      { s.put k j ⟨n,[],[],.unlocking r n⟩ with
        memory := memory, pushed := s.pushed ++ [(r,v)] } := by
  have hgoing : r ∈ (s.connection (k,j)).going := by
    simp [hworker, Connection.going, Pc.going]
  have hnew := h.going k j r hgoing
  have hpushed : ∀ r', r' ∈ (s.pushed ++ [(r,v)]).map Prod.fst ↔ r' ∈ s.pushedRequests ∨ r' = r := by
    intro r'
    simp only [Threads.pushedRequests, List.map_append, List.mem_append, List.map_singleton,
      List.mem_singleton]
  refine ⟨h.calls,h.owner,h.numbered,fun k' j' r' hr' => ?_,fun k' j' r' hr' => ?_,
    fun i r' hr' => (hpushed r').mpr (.inl (h.answered i r' hr')),?_,fun r' hr' => ?_,
    fun p hp => ?_⟩
  · rw [Threads.pushedRequests, hpushed]
    by_cases hkj : (k',j') = (k,j)
    · cases hkj
      simp [Connection.going, Pc.going] at hr'
    · have hr'' : r' ∈ (s.connection (k',j')).going := by
        rwa [put_connection_of_ne s _ hkj] at hr'
      rintro (hold | rfl)
      · exact h.going k' j' r' hr'' hold
      · exact hkj (he.going_unique h.awaited_owner hgoing hr'')
  · rw [Threads.pushedRequests, hpushed]
    by_cases hkj : (k',j') = (k,j)
    · cases hkj
      exact .inr (by simpa [Connection.returning, Pc.returning] using hr')
    · rw [put_connection_of_ne s _ hkj] at hr'
      exact .inl (h.returning k' j' r' hr')
  · rw [Threads.pushedRequests, List.map_append, List.nodup_append]
    refine ⟨h.nodup,List.nodup_singleton _,?_⟩
    rintro a ha b hb rfl
    obtain rfl : a = r := by simpa using hb
    exact hnew ha
  · rcases (hpushed r').mp hr' with hold | rfl
    · exact h.issued r' hold
    · exact h.sent_of_awaited he hawaited
  · rcases List.mem_append.mp hp with hold | hlast
    · exact h.latency p hold
    · cases List.mem_singleton.mp hlast
      exact ⟨elapsed,hv⟩

theorem threadMove_accounts (h : Accounts numRelays s) (he : Exclusive numRelays s)
    (hm : ThreadMove numRelays numMessages s t) : Accounts numRelays t := by
  cases hm with
  | call j arg n hcaller hquiet => exact h.call hcaller
  | receive j n r hcaller hreplied => exact h.receive hcaller hreplied
  | take k j n r arg hawaited hrequested harg =>
    exact h.work (by rw [hrequested]; rfl) (by rw [hrequested]; rfl)
  | lockClient k j n r arg hawaited hworker harg hk hfree =>
    have hwork : Accounts numRelays (s.put k j ⟨n,[],[],.calling r n arg⟩) :=
      h.work (by rw [hworker]; rfl) (by rw [hworker]; rfl)
    exact hwork.frame _
  | compute k j n r arg v elapsed hawaited hworker hk hv =>
    exact h.work (by rw [hworker]; rfl) (by rw [hworker]; rfl)
  | send k j n m r arg hawaited hworker harg hk hquiet =>
    have hgoing := h.going k j
    rw [hworker] at hgoing
    refine Accounts.put (h.put ?_ ?_) hgoing ?_
    · simp [Connection.going, Pc.going]
    · simp [Connection.returning, Pc.returning]
    · simp [Connection.returning, Connection.send, Pc.returning]
  | read k j n m r hawaited hworker hk hreplied =>
    have hreturning := h.returning (k + 1) 0
    rw [hreplied] at hreturning
    refine Accounts.put (h.put ?_ hreturning) ?_ ?_
    · simp [Connection.going, Pc.going]
    · simp [Connection.going, Pc.going]
    · simp [Connection.returning, Pc.returning]
  | lockVec k j n r v elapsed hawaited hworker hk hv hfree =>
    have hwork : Accounts numRelays (s.put k j ⟨n,[],[],.pushing r n v⟩) :=
      h.work (by rw [hworker]; rfl) (by rw [hworker]; rfl)
    exact hwork.frame _
  | push k j n r v elapsed memory hawaited hworker hk hv hgood hsink =>
    exact h.push he hawaited hworker hv
  | unlock k j n r hawaited hworker =>
    have hwork : Accounts numRelays (s.put k j ⟨n,[],[],.replying r (okReply n)⟩) :=
      h.work (by rw [hworker]; rfl) (by rw [hworker]; rfl)
    exact hwork.frame _
  | reply k j n r hawaited hworker =>
    exact h.work (by rw [hworker]; rfl) (by rw [hworker]; rfl)

theorem exec_accounts (hN : numRelays < 2 ^ 31) {ls : List ThreadLabel}
    (h : exec (threadStep numRelays numMessages callers) Threads.init ls = some s) :
    Accounts numRelays s := by
  have hboth : Exclusive numRelays s ∧ Accounts numRelays s := by
    refine @exec_invariant _ _ _ (fun s => Exclusive numRelays s ∧ Accounts numRelays s) _
      ⟨Exclusive.init numRelays,Accounts.init numRelays⟩ ?_ ls s h
    rintro t l u ⟨he,ha⟩ hs
    have hm := step_threadMove hN he hs
    exact ⟨threadMove_exclusive he hm,threadMove_accounts ha he hm⟩
  exact hboth.2

/-! ## No deadlock -/

/-- Some thread that is under way can take a step. -/
def Moves (numRelays numMessages callers : ℕ) (s : Threads) : Prop :=
  ∃ l : ThreadLabel, l.Continues ∧ threadStep numRelays numMessages callers s l ≠ none

theorem Moves.run (h : workerStep numRelays numMessages s k j 0 ≠ none) :
    Moves numRelays numMessages callers s := ⟨.run k j 0,trivial,h⟩

/-- A worker under a mutex moves, or the call it has sent on does. -/
theorem Exclusive.holder_moves (h : Exclusive numRelays s) (hheld : s.holder k = some j)
    (hnext : ∀ r, s.calling k = some r → Moves numRelays numMessages callers s) :
    Moves numRelays numMessages callers s := by
  have hinside := (h.mutex k j).mpr hheld
  generalize hpc : (s.connection (k,j)).worker = pc at hinside
  cases pc with
  | calling r n arg => exact Moves.run (k := k) (j := j) (by simp [workerStep, hpc])
  | awaiting r n => exact hnext r (h.calling_eq hpc trivial)
  | pushing r n v => exact Moves.run (k := k) (j := j) (by simp [workerStep, hpc])
  | unlocking r n => exact Moves.run (k := k) (j := j) (by simp [workerStep, hpc])
  | _ => exact hinside.elim

/-- A reply that has come back can be read. -/
theorem Exclusive.reader_moves (h : Exclusive numRelays s) (hr : s.awaited k j = some r)
    (hreplies : (s.connection (k,j)).replies ≠ []) :
    Moves numRelays numMessages callers s := by
  obtain ⟨reply,rest,hc⟩ := List.exists_cons_of_ne_nil hreplies
  rcases k with _ | k
  · refine ⟨.receive j,trivial,?_⟩
    cases hcaller : s.caller j with
    | waiting r' => simp [threadStep, hcaller, hc]
    | _ => simp [Threads.awaited, hcaller, Caller.awaited] at hr
  · rcases j with _ | j
    · obtain ⟨i,hi⟩ := h.mutex.calling_iff.mp hr
      generalize hpc : (s.connection (k,i)).worker = pc at hi
      cases pc with
      | awaiting r' n => exact Moves.run (k := k) (j := i) (by simp [workerStep, hpc, hc])
      | _ => simp [Pc.awaited] at hi
    · simp [Threads.awaited] at hr

/-- A call at server `k` moves if those its relay has sent on do. -/
theorem Exclusive.moves_of_next (h : Exclusive numRelays s) (hr : s.awaited k j = some r)
    (hnext : ∀ r, s.calling k = some r → Moves numRelays numMessages callers s) :
    Moves numRelays numMessages callers s := by
  have hexchange := h.exchange k j
  rw [hr] at hexchange
  generalize hc : s.connection (k,j) = c at hexchange
  cases hexchange with
  | requested r n arg harg => exact Moves.run (k := k) (j := j) (by simp [workerStep, hc])
  | replied r n => exact h.reader_moves hr (by simp [hc])
  | served r n pc hpc =>
    cases hpc with
    | handling arg harg =>
      cases hholder : s.holder k with
      | some w => exact h.holder_moves hholder hnext
      | none =>
        refine Moves.run (k := k) (j := j) ?_
        by_cases hk : k < numRelays <;> simp [workerStep, hc, hk, hholder]
    | awaiting hk =>
      have hpc : (s.connection (k,j)).worker = .awaiting r n := by rw [hc]
      exact hnext r (h.calling_eq hpc trivial)
    | locking hk v elapsed hv =>
      cases hholder : s.holder k with
      | some w => exact h.holder_moves hholder hnext
      | none => exact Moves.run (k := k) (j := j) (by simp [workerStep, hc, hholder])
    | calling hk arg harg => exact Moves.run (k := k) (j := j) (by simp [workerStep, hc])
    | pushing hk v elapsed hv => exact Moves.run (k := k) (j := j) (by simp [workerStep, hc])
    | unlocking => exact Moves.run (k := k) (j := j) (by simp [workerStep, hc])
    | replying => exact Moves.run (k := k) (j := j) (by simp [workerStep, hc])

/-- While a call is at server `k` some thread from there on can move: the induction is from
the sink back. -/
theorem Exclusive.moves (h : Exclusive numRelays s) (hr : s.awaited k j = some r) :
    Moves numRelays numMessages callers s := by
  induction hd : numRelays - k generalizing k j r with
  | zero =>
    refine h.moves_of_next hr (fun r' hr' => ?_)
    have hlt := h.lt_of_calling hr'
    omega
  | succ d ih => exact h.moves_of_next hr (fun r' hr' => ih (k := k + 1) (j := 0) hr' (by omega))

/-! ## What every run keeps -/

/-- What concurrent callers can rely on. -/
structure Serialised (numRelays numMessages callers : ℕ) (s : Threads) : Prop where
  /-- A connection carries one call at most. -/
  oneOutstanding : ∀ k j, (s.connection (k,j)).outstanding.length ≤ 1
  /-- What a relay's hop carries was sent by the worker that holds the relay's mutex. -/
  held : ∀ k j r, r ∈ (s.connection (k + 1,j)).outstanding → j = 0 ∧ ∃ w n,
    s.holder k = some w ∧ (s.connection (k,w)).worker = .awaiting r n
  noPanic : (∀ j, s.caller j ≠ .panicked) ∧ ∀ k j, (s.connection (k,j)).worker ≠ .panicked
  /-- The replies a caller has read are those of its own calls, in order; one may be missing. -/
  ownReplies : ∀ j, s.sent j = s.answered j ++ (s.caller j).awaited.toList ∧
    (∀ r ∈ s.sent j, r.caller = j) ∧
    (s.sent j).map Request.nth = List.range (s.sent j).length
  /-- The sink pushes no call twice and every answered one, each with its own send time. -/
  pushedOnce : s.pushedRequests.Nodup ∧ (∀ j, ∀ r ∈ s.answered j, r ∈ s.pushedRequests) ∧
    ∀ p ∈ s.pushed, p.1 ∈ s.sent p.1.caller ∧
      ∃ elapsed : ℕ, latency numRelays (asI64 elapsed) p.1.arg.nanosec = some p.2
  /-- No deadlock. -/
  moves : ∀ j r, s.caller j = .waiting r → Moves numRelays numMessages callers s
  /-- Once no thread can move, every call has been answered. -/
  settled : ¬ Moves numRelays numMessages callers s → ∀ j, s.answered j = s.sent j

theorem Exchange.outstanding {o : Option Request} {c : Connection}
    (h : Exchange numRelays k o c) : c.outstanding = o.toList := by
  cases h with
  | quiet n => rfl
  | requested r n arg harg => rfl
  | replied r n => rfl
  | served r n pc hpc => cases hpc <;> rfl

theorem Exclusive.held (h : Exclusive numRelays s) (hr : s.awaited (k + 1) j = some r) :
    j = 0 ∧ ∃ w n, s.holder k = some w ∧ (s.connection (k,w)).worker = .awaiting r n := by
  rcases j with _ | j
  · obtain ⟨w,hw⟩ := h.mutex.calling_iff.mp hr
    refine ⟨rfl,w,?_⟩
    generalize hpc : (s.connection (k,w)).worker = pc at hw
    cases pc with
    | awaiting r' n =>
      obtain rfl : r' = r := by simpa [Pc.awaited] using hw
      exact ⟨n,(h.mutex k w).mp (hpc ▸ trivial),rfl⟩
    | _ => simp [Pc.awaited] at hw
  · simp [Threads.awaited] at hr

/-- Two callers of one relay; the second is served first. -/
def twoCallers : List ThreadLabel :=
  [.call 0 ⟨0,5,"client"⟩,.call 1 ⟨0,5,"client"⟩,.run 0 0 0,.run 0 1 0,.run 0 1 0,.run 0 1 0,
    .run 1 0 25,.run 1 0 25,.run 1 0 25,.run 1 0 25,.run 1 0 25,.run 1 0 25,
    .run 0 1 0,.run 0 1 0,.run 0 1 0,.receive 1]

end RelayBench.ThriftRs
