import RelayBench.Library.Work
import RelayBench.ThriftRs.Callers

/-! # Every call of a concurrent caller is answered

However the threads are interleaved, a call takes the same number of their steps, six at every
server and one to read its reply. So no thread waits in vain and none repeats anything.
-/
namespace RelayBench.ThriftRs
open Execution RemoteCall Function Work
variable {numRelays numMessages callers : ℕ} {s t : Threads} {l : ThreadLabel} {k j : ℕ}

/-! ## The steps that are left of a call -/

/-- The steps of a call from the request at server `k` up to the read of its reply. -/
def callSteps (numRelays k : ℕ) : ℕ := 6 * (numRelays - k) + 7

/-- What a worker of server `k` has left to do, with what it will make others do. -/
def Pc.left (numRelays k : ℕ) : Pc → ℕ
  | .idle => 0
  | .handling _ _ _ => 6 * (numRelays - k) + 6
  | .calling _ _ _ => 6 * (numRelays - k) + 5
  | .awaiting _ _ => 3
  | .locking _ _ _ => 5
  | .pushing _ _ _ => 4
  | .unlocking _ _ => 3
  | .replying _ _ => 2
  | .panicked => 0

def Connection.left (numRelays k : ℕ) (c : Connection) : ℕ :=
  c.requests.length * callSteps numRelays k + c.worker.left numRelays k + c.replies.length

/-- The connections of the servers that exist. -/
def places (numRelays callers : ℕ) : Finset (ℕ × ℕ) :=
  Finset.range (numRelays + 1) ×ˢ Finset.range (callers + 1)

def Threads.left (numRelays callers : ℕ) (s : Threads) : ℕ :=
  ∑ p ∈ places numRelays callers, (s.connection p).left numRelays p.1

theorem put_left (s : Threads) (c : Connection) (h : (k,j) ∈ places numRelays callers) :
    (s.put k j c).left numRelays callers + (s.connection (k,j)).left numRelays k =
      s.left numRelays callers + c.left numRelays k := by
  have hreplace := @sum_replace _ _ _ (fun p => (s.connection p).left numRelays p.1)
    (fun p => ((s.put k j c).connection p).left numRelays p.1) _ h
    (fun p hp => by rw [put_connection_of_ne s c hp])
  simpa only [put_connection_self, Threads.left] using hreplace

/-- A request on a quiet connection has all its steps to come. -/
theorem send_left (n : ℤ) (r : Request) (arg : Timing) :
    ((⟨n,[],[],.idle⟩ : Connection).send r arg).left numRelays k = callSteps numRelays k := by
  simp [Connection.left, Connection.send, Pc.left]

/-- The threads at work, each where a caller or a relay waits for it. -/
structure Working (numRelays callers : ℕ) (s : Threads) : Prop where
  exclusive : Exclusive numRelays s
  callers : ∀ j, s.caller j ≠ .idle → j < callers

theorem Working.place (h : Working numRelays callers s) {r : Request}
    (hr : s.awaited k j = some r) : (k,j) ∈ places numRelays callers := by
  have hk := h.exclusive.le_of_awaited hr
  have hj : j ≤ callers := by
    rcases k with _ | k
    · have hcaller : s.caller j ≠ .idle := by
        intro hidle
        simp [Threads.awaited, hidle, Caller.awaited] at hr
      exact (h.callers j hcaller).le
    · rcases j with _ | j
      · exact Nat.zero_le _
      · simp [Threads.awaited] at hr
  simp only [places, Finset.mem_product, Finset.mem_range]
  omega

theorem next_place (hk : k < numRelays) : (k + 1,0) ∈ places numRelays callers := by
  simp only [places, Finset.mem_product, Finset.mem_range]
  omega

/-- A worker leaves the callers' records alone. -/
theorem workerStep_records {elapsed : ℕ}
    (hs : workerStep numRelays numMessages s k j elapsed = some t) :
    t.sent = s.sent ∧ t.answered = s.answered ∧ t.caller = s.caller := by
  unfold workerStep at hs
  dsimp only at hs
  split at hs
  · split at hs <;> cases hs
    exact ⟨rfl,rfl,rfl⟩
  · split at hs
    · split at hs <;> cases hs
      split <;> exact ⟨rfl,rfl,rfl⟩
    · obtain rfl := Option.some.inj hs
      split <;> exact ⟨rfl,rfl,rfl⟩
  · cases hs
    exact ⟨rfl,rfl,rfl⟩
  · split at hs <;> cases hs
    split <;> exact ⟨rfl,rfl,rfl⟩
  · split at hs <;> cases hs
    exact ⟨rfl,rfl,rfl⟩
  · cases hs
    split <;> exact ⟨rfl,rfl,rfl⟩
  · cases hs
    exact ⟨rfl,rfl,rfl⟩
  · cases hs
    exact ⟨rfl,rfl,rfl⟩
  · cases hs

/-- A worker's step does one of the steps that are left. -/
theorem threadMove_left (h : Working numRelays callers s)
    (hm : ThreadMove numRelays numMessages s t) (hsent : t.sent = s.sent)
    (hanswered : t.answered = s.answered) :
    t.left numRelays callers + 1 = s.left numRelays callers := by
  cases hm with
  | call i arg n hcaller hquiet =>
    have hsame := congrFun hsent i
    simp at hsame
  | receive i n r hcaller hreplied =>
    have hsame := congrFun hanswered i
    simp at hsame
  | take i w n r arg hawaited hrequested harg =>
    have hput := put_left s ⟨n,[],[],.handling r n arg⟩ (h.place hawaited)
    simp only [hrequested, Connection.left, Pc.left, callSteps, List.length_singleton,
      List.length_nil] at hput
    omega
  | lockClient i w n r arg hawaited hworker harg hk hfree =>
    have hput := put_left s ⟨n,[],[],.calling r n arg⟩ (h.place hawaited)
    simp only [hworker, Connection.left, Pc.left, List.length_nil] at hput
    show (s.put i w ⟨n,[],[],.calling r n arg⟩).left numRelays callers + 1 = _
    omega
  | compute i w n r arg v elapsed hawaited hworker hk hv =>
    have hput := put_left s ⟨n,[],[],.locking r n v⟩ (h.place hawaited)
    simp only [hworker, Connection.left, Pc.left, List.length_nil] at hput
    omega
  | send i w n m r arg hawaited hworker harg hk hquiet =>
    have hput := put_left s ⟨n,[],[],.awaiting r n⟩ (h.place hawaited)
    have hplace : (i + 1,0) ∈ places numRelays callers := next_place hk
    have hnext := put_left (s.put i w ⟨n,[],[],.awaiting r n⟩)
      ((⟨m,[],[],.idle⟩ : Connection).send r (relayCopy i arg)) hplace
    rw [put_connection_of_ne _ _ (by simp), hquiet, send_left] at hnext
    simp only [hworker, Connection.left, Pc.left, List.length_nil] at hput hnext
    unfold callSteps at hnext
    omega
  | read i w n m r hawaited hworker hk hreplied =>
    have hput := put_left s ⟨n,[],[],.unlocking r n⟩ (h.place hawaited)
    have hplace : (i + 1,0) ∈ places numRelays callers := next_place hk
    have hnext := put_left (s.put i w ⟨n,[],[],.unlocking r n⟩) ⟨m,[],[],.idle⟩ hplace
    rw [put_connection_of_ne _ _ (by simp), hreplied] at hnext
    simp only [hworker, Connection.left, Pc.left, List.length_singleton, List.length_nil] at hput hnext
    omega
  | lockVec i w n r v elapsed hawaited hworker hk hv hfree =>
    have hput := put_left s ⟨n,[],[],.pushing r n v⟩ (h.place hawaited)
    simp only [hworker, Connection.left, Pc.left, List.length_nil] at hput
    show (s.put i w ⟨n,[],[],.pushing r n v⟩).left numRelays callers + 1 = _
    omega
  | push i w n r v elapsed memory hawaited hworker hk hv hgood hsink =>
    have hput := put_left s ⟨n,[],[],.unlocking r n⟩ (h.place hawaited)
    simp only [hworker, Connection.left, Pc.left, List.length_nil] at hput
    show (s.put i w ⟨n,[],[],.unlocking r n⟩).left numRelays callers + 1 = _
    omega
  | unlock i w n r hawaited hworker =>
    have hput := put_left s ⟨n,[],[],.replying r (okReply n)⟩ (h.place hawaited)
    simp only [hworker, Connection.left, Pc.left, List.length_nil] at hput
    show (s.put i w ⟨n,[],[],.replying r (okReply n)⟩).left numRelays callers + 1 = _
    omega
  | reply i w n r hawaited hworker =>
    have hput := put_left s ⟨n,[],[⟨r,okReply n⟩],.idle⟩ (h.place hawaited)
    simp only [hworker, Connection.left, Pc.left, List.length_singleton, List.length_nil] at hput
    omega

/-! ## Runs -/

instance : DecidablePred ThreadLabel.Continues
  | .call _ _ => .isFalse id
  | .receive _ => .isTrue trivial
  | .run _ _ _ => .isTrue trivial

/-- The steps of calls that a label takes, and those that it adds. -/
def ThreadLabel.done (l : ThreadLabel) : ℕ := if l.Continues then 1 else 0

def ThreadLabel.added (numRelays : ℕ) (l : ThreadLabel) : ℕ :=
  if l.Continues then 0 else callSteps numRelays 0

theorem call_step (h : Exclusive numRelays s) {arg : Timing}
    (hs : threadStep numRelays numMessages callers s (.call j arg) = some t) :
    j < callers ∧ ∃ n, s.connection (0,j) = ⟨n,[],[],.idle⟩ ∧
      t = { s.put 0 j ((⟨n,[],[],.idle⟩ : Connection).send (s.nextRequest j arg) arg) with
        caller := update s.caller j (.waiting (s.nextRequest j arg))
        sent := update s.sent j (s.sent j ++ [s.nextRequest j arg]) } := by
  cases hcaller : s.caller j with
  | waiting r => simp [threadStep, hcaller] at hs
  | panicked => simp [threadStep, hcaller] at hs
  | idle =>
    have hnone : s.awaited 0 j = none := by simp [Threads.awaited, Caller.awaited, hcaller]
    obtain ⟨n,hn⟩ := h.quiet hnone
    simp only [threadStep, hcaller, hn, Option.ite_none_right_eq_some, Option.some.injEq] at hs
    exact ⟨hs.1,n,hn,hs.2.symm⟩

theorem receive_step (h : Exclusive numRelays s)
    (hs : threadStep numRelays numMessages callers s (.receive j) = some t) :
    ∃ n r, s.caller j = .waiting r ∧ s.connection (0,j) = ⟨n,[],[⟨r,okReply n⟩],.idle⟩ ∧
      t = { s.put 0 j ⟨n,[],[],.idle⟩ with
        caller := update s.caller j .idle
        answered := update s.answered j (s.answered j ++ [r]) } := by
  cases hcaller : s.caller j with
  | idle => simp [threadStep, hcaller] at hs
  | panicked => simp [threadStep, hcaller] at hs
  | waiting r =>
    have hsome : s.awaited 0 j = some r := by simp [Threads.awaited, Caller.awaited, hcaller]
    have hexchange := h.exchange 0 j
    rw [hsome] at hexchange
    generalize hc : s.connection (0,j) = c at hexchange
    cases hexchange with
    | requested _ _ arg harg => simp [threadStep, hcaller, hc] at hs
    | served _ _ pc hpc => simp [threadStep, hcaller, hc] at hs
    | replied _ n =>
      simp only [threadStep, hcaller, hc, readReply_okReply, Option.some.injEq] at hs
      exact ⟨n,r,rfl,rfl,hs.symm⟩

theorem step_working (hN : numRelays < 2 ^ 31) (h : Working numRelays callers s)
    (hs : threadStep numRelays numMessages callers s l = some t) :
    Working numRelays callers t := by
  refine ⟨threadMove_exclusive h.exclusive (step_threadMove hN h.exclusive hs),fun i hi => ?_⟩
  cases l with
  | run k j elapsed =>
    simp only [threadStep] at hs
    obtain ⟨_,_,hcaller⟩ := workerStep_records hs
    rw [hcaller] at hi
    exact h.callers i hi
  | call j arg =>
    obtain ⟨hj,n,_,rfl⟩ := call_step h.exclusive hs
    rcases eq_or_ne i j with rfl | hne
    · exact hj
    · exact h.callers i (by simpa only [update_of_ne hne] using hi)
  | receive j =>
    obtain ⟨n,r,hwaiting,_,rfl⟩ := receive_step h.exclusive hs
    rcases eq_or_ne i j with rfl | hne
    · exact h.callers i (by simp [hwaiting])
    · exact h.callers i (by simpa only [update_of_ne hne] using hi)

theorem step_left (hN : numRelays < 2 ^ 31) (h : Working numRelays callers s)
    (hs : threadStep numRelays numMessages callers s l = some t) :
    t.left numRelays callers + l.done = s.left numRelays callers + l.added numRelays := by
  cases l with
  | run k j elapsed =>
    simp only [threadStep] at hs
    obtain ⟨hsent,hanswered,_⟩ := workerStep_records hs
    exact threadMove_left h (worker_move hN h.exclusive hs) hsent hanswered
  | call j arg =>
    obtain ⟨hj,n,hquiet,rfl⟩ := call_step h.exclusive hs
    have hplace : (0,j) ∈ places numRelays callers := by
      simp only [places, Finset.mem_product, Finset.mem_range]
      omega
    have hput := put_left s ((⟨n,[],[],.idle⟩ : Connection).send (s.nextRequest j arg) arg) hplace
    rw [send_left, hquiet] at hput
    simp only [Connection.left, Pc.left, List.length_nil] at hput
    show (s.put 0 j ((⟨n,[],[],.idle⟩ : Connection).send (s.nextRequest j arg) arg)).left
      numRelays callers + 0 = s.left numRelays callers + callSteps numRelays 0
    omega
  | receive j =>
    obtain ⟨n,r,hwaiting,hreplied,rfl⟩ := receive_step h.exclusive hs
    have hawaited : s.awaited 0 j = some r := by simp [Threads.awaited, hwaiting, Caller.awaited]
    have hput := put_left s ⟨n,[],[],.idle⟩ (h.place hawaited)
    simp only [hreplied, Connection.left, Pc.left, List.length_singleton, List.length_nil] at hput
    show (s.put 0 j ⟨n,[],[],.idle⟩).left numRelays callers + 1 = s.left numRelays callers + 0
    omega

theorem balanced (hN : numRelays < 2 ^ 31) (numMessages callers : ℕ) :
    Balanced (threadStep numRelays numMessages callers) (Working numRelays callers)
      (Threads.left numRelays callers) ThreadLabel.done (ThreadLabel.added numRelays) where
  inv _ _ _ hi hs := step_working hN hi hs
  balance _ _ _ hi hs := step_left hN hi hs

theorem Working.init (numRelays callers : ℕ) : Working numRelays callers Threads.init :=
  ⟨Exclusive.init numRelays,fun _ h => absurd rfl h⟩

theorem init_left : Threads.init.left numRelays callers = 0 :=
  Finset.sum_eq_zero (fun _ _ => by simp [Threads.init, Connection.left, Pc.left])

theorem done_sum (ls : List ThreadLabel) :
    (ls.map ThreadLabel.done).sum = ls.countP (fun l => l.Continues) := by
  induction ls with
  | nil => rfl
  | cons l ls ih =>
    rw [List.map_cons, List.sum_cons, ih, List.countP_cons, ThreadLabel.done, Nat.add_comm]
    simp

theorem added_sum (ls : List ThreadLabel) :
    (ls.map (ThreadLabel.added numRelays)).sum =
      callSteps numRelays 0 * ls.countP (fun l => ¬ l.Continues) := by
  induction ls with
  | nil => rfl
  | cons l ls ih =>
    rw [List.map_cons, List.sum_cons, ih, List.countP_cons, ThreadLabel.added]
    by_cases hl : l.Continues
    · simp [hl]
    · simp [hl]
      ring

theorem exec_working (hN : numRelays < 2 ^ 31) {ls : List ThreadLabel}
    (h : exec (threadStep numRelays numMessages callers) Threads.init ls = some s) :
    Working numRelays callers s ∧ s.left numRelays callers + ls.countP (fun l => l.Continues) =
      callSteps numRelays 0 * ls.countP (fun l => ¬ l.Continues) := by
  have hb := balanced hN numMessages callers
  have hinit := Working.init numRelays callers
  have hbalance := hb.exec_balance hinit h
  rw [done_sum, added_sum, init_left, Nat.zero_add] at hbalance
  exact ⟨hb.exec_inv hinit h,hbalance⟩

end RelayBench.ThriftRs
