import RelayBench.Grpc.Threads

/-! # One token passes along the blocking calls

The handlers in progress are a stack: the relays below the top are blocked in their calls,
and only the top, or the message on its way to or from the next hop, can move. `Represents`
gives the whole state of the threads for the place of this token.
-/
namespace RelayBench.GrpcThreads
open Execution RemoteCall Ports Grpc
variable {kNumRelays numMessages : ℕ} {s t : State} {l : Label} {ls : List Label}
variable {sent : ℤ} {k : ℕ}

/-! ## The stack of handlers -/

/-- The request that hop `k` carries. -/
def hopRequest (sent : ℤ) : ℕ → Timing
  | 0 => clientRequest sent
  | k + 1 => relayCopy k (hopRequest sent k)

theorem hopRequest_msgid (sent : ℤ) (k : ℕ) : (hopRequest sent k).msgid = 10 := by
  induction k with
  | zero => rfl
  | succ k ih => exact ih

/-- The server of hop `k`. -/
def hopServer (kNumRelays k : ℕ) : Server := if k < kNumRelays then .relay k else .sink

/-- The handler of hop `k` for iteration `i`, whose calls are numbered from `base`. -/
def handler (kNumRelays : ℕ) (sent : ℤ) (i base k : ℕ) (pc : Pc) : Activation :=
  ⟨base + k,hopServer kNumRelays k,hopRequest sent k,i,pc⟩

/-- The first `k` relays, each blocked in its call. -/
def blocked (kNumRelays : ℕ) (sent : ℤ) (i base k : ℕ) : List Activation :=
  (List.range k).map (fun j => handler kNumRelays sent i base j (.waiting (base + j + 1)))

section Stack
variable {i base a : ℕ} {act : Activation}

theorem blocked_length : (blocked kNumRelays sent i base k).length = k := by simp [blocked]

theorem blocked_succ : blocked kNumRelays sent i base (k + 1) =
    blocked kNumRelays sent i base k ++
      [handler kNumRelays sent i base k (.waiting (base + k + 1))] := by
  simp [blocked, List.range_succ]

theorem blocked_getElem? (h : (blocked kNumRelays sent i base k)[a]? = some act) :
    a < k ∧ act = handler kNumRelays sent i base a (.waiting (base + a + 1)) := by
  obtain ⟨ha,rfl⟩ := List.getElem?_eq_some_iff.mp h
  rw [blocked_length] at ha
  exact ⟨ha,by simp [blocked]⟩

/-- A thread is blocked in its call, or is the top of the stack. -/
theorem stack_getElem? {top : Option Activation}
    (h : (blocked kNumRelays sent i base k ++ top.toList)[a]? = some act) :
    (a < k ∧ act = handler kNumRelays sent i base a (.waiting (base + a + 1))) ∨
      (a = k ∧ top = some act) := by
  rcases Nat.lt_or_ge a k with ha | ha
  · rw [List.getElem?_append_left (by rwa [blocked_length])] at h
    exact .inl (blocked_getElem? h)
  · rw [List.getElem?_append_right (by rwa [blocked_length]), blocked_length] at h
    cases top with
    | none => simp at h
    | some act' =>
      rcases Nat.eq_zero_or_pos (a - k) with hz | hz
      · rw [hz] at h
        exact .inr ⟨by omega,by simpa using h⟩
      · rw [Option.toList_some, List.getElem?_eq_none (by
          rw [List.length_singleton]
          exact hz)] at h
        cases h

theorem stack_set (act' : Activation) :
    (blocked kNumRelays sent i base k ++ [act]).set k act' =
      blocked kNumRelays sent i base k ++ [act'] := by
  rw [List.set_append_right _ _ (by rw [blocked_length]), blocked_length]
  simp

theorem stack_eraseIdx :
    (blocked kNumRelays sent i base k ++ [act]).eraseIdx k =
      blocked kNumRelays sent i base k := by
  rw [List.eraseIdx_append_of_length_le (by rw [blocked_length]), blocked_length]
  simp

end Stack

/-! ## The token -/

/-- What the token is: nothing, a request or a reply on its way, or the top handler. -/
inductive Front
  | idle
  | requested
  | running (pc : Pc)
  | replied
deriving DecidableEq

def Front.pc : Front → Option Pc
  | .running pc => some pc
  | _ => none

/-- The stub calls made for the current request when the token is at hop `k`. -/
def Front.called (kNumRelays k : ℕ) : Front → ℕ
  | .idle => 0
  | .requested => k + 1
  | .running .entered => k + 1
  | _ => kNumRelays + 1

/-- Which handlers can be the top of the stack. -/
def Front.Fits (kNumRelays k : ℕ) : Front → Prop
  | .idle => k = 0
  | .running (.waiting _) => False
  | .running .answered => k < kNumRelays
  | .running .inserted => k = kNumRelays
  | .running .reporting => k = kNumRelays
  | .running .exiting => k = kNumRelays
  | _ => k ≤ kNumRelays

/-- The state of the threads for a token at hop `k` with a request sent at `sent`. -/
structure Represents (kNumRelays : ℕ) (s : State) (sent : ℤ) (k : ℕ) (front : Front) :
    Prop where
  fits : front.Fits kNumRelays k
  client : s.client = if front = .idle then none else some (s.finished * (kNumRelays + 1))
  calls : s.calls = s.finished * (kNumRelays + 1) + front.called kNumRelays k
  requests : s.requests = if front = .requested then
    [⟨s.finished * (kNumRelays + 1) + k,port k,hopRequest sent k,s.finished⟩] else []
  replies : s.replies = if front = .replied then
    [(s.finished * (kNumRelays + 1) + k,⟨10⟩)] else []
  activations : s.activations =
    blocked kNumRelays sent s.finished (s.finished * (kNumRelays + 1)) k ++
      (front.pc.map (handler kNumRelays sent s.finished (s.finished * (kNumRelays + 1)) k)).toList

/-- The current request has passed the sink's insert. -/
def Front.passed : Front → Bool
  | .idle => false
  | .requested => false
  | .running .entered => false
  | _ => true

/-- The sink has inserted its last sample. -/
def Front.full : Front → Bool
  | .running .reporting => true
  | .running .exiting => true
  | _ => false

/-- The sink's samples for a token: one for each finished call and one for the current
request once it has passed. -/
structure Recorded (numMessages : ℕ) (s : State) (front : Front) : Prop where
  inserted : s.inserted = List.range s.data.length
  count : s.data.length = s.finished + front.passed.toNat
  low : front.full = false → s.data = [] ∨ s.data.length < numMessages
  full : front.full = true → numMessages ≤ s.data.length
  unreported : front ≠ .running .exiting → s.reports = []
  reported : front = .running .exiting → ∃ r, s.reports = [r] ∧ r.array.Perm s.data

/-- The token moves and the sink does nothing. -/
theorem Recorded.move {front front' : Front} (h : Recorded numMessages s front)
    (hsink : t.inserted = s.inserted ∧ t.data = s.data ∧ t.reports = s.reports)
    (hpassed : t.finished + front'.passed.toNat = s.finished + front.passed.toNat)
    (hfull : front'.full = front.full) (hrunning : front ≠ .running .exiting)
    (hrunning' : front' ≠ .running .exiting) : Recorded numMessages t front' := by
  obtain ⟨hinserted,hdata,hreports⟩ := hsink
  constructor
  · rw [hinserted, hdata]
    exact h.inserted
  · rw [hdata, hpassed]
    exact h.count
  · rw [hdata, hfull]
    exact h.low
  · rw [hdata, hfull]
    exact h.full
  · intro _
    exact hreports.trans (h.unreported hrunning)
  · exact fun hexiting => absurd hexiting hrunning'

def Serial (kNumRelays numMessages : ℕ) (s : State) : Prop :=
  ∃ sent k front, Represents kNumRelays s sent k front ∧ Recorded numMessages s front

theorem hopServer_listening (hk : k ≤ kNumRelays) :
    listening kRelayPortStart kNumRelays (port k) = some (hopServer kNumRelays k) := by
  unfold hopServer
  rcases Nat.lt_or_eq_of_le hk with hlt | rfl
  · rw [if_pos hlt]
    exact listening_relay hlt
  · rw [if_neg (lt_irrefl k)]
    exact listening_sink

/-- A thread that is not blocked is the top, and the token is its handler. -/
theorem Represents.top {front : Front} {a : ℕ} {act : Activation} {pc : Pc}
    (h : Represents kNumRelays s sent k front) (hact : s.activations[a]? = some act)
    (hpc : act.pc = pc) (hne : ∀ c, pc ≠ .waiting c) :
    a = k ∧ front = .running pc ∧
      act = handler kNumRelays sent s.finished (s.finished * (kNumRelays + 1)) k pc := by
  rw [h.activations] at hact
  rcases stack_getElem? hact with ⟨_,rfl⟩ | ⟨ha,htop⟩
  · exact absurd hpc.symm (hne _)
  · obtain ⟨pc',hfront,rfl⟩ := Option.map_eq_some_iff.mp htop
    cases front <;> simp_all [Front.pc, handler]

/-! ## Steps move the token -/

theorem single_getElem? {α : Type*} {x y : α} {p : Prop} [Decidable p] {j : ℕ}
    (h : (if p then [x] else [])[j]? = some y) : p ∧ j = 0 ∧ x = y := by
  split at h
  · rename_i hp
    cases j with
    | zero => exact ⟨hp,rfl,by simpa using h⟩
    | succ j => simp at h
  · simp at h

/-- The sink inserts its sample, the last one or not. -/
theorem insert_serial (hr : Represents k s sent k (.running .entered))
    (hd : Recorded numMessages s (.running .entered)) (now : ℤ) :
    let top := handler k sent s.finished (s.finished * (k + 1)) k .entered
    Serial k numMessages { s with
      data := insertSample k now top.request s.data
      inserted := s.inserted ++ [top.origin]
      activations := s.activations.set k { top with
        pc := if numMessages ≤ s.data.length + 1 then .reporting else .inserted } } := by
  intro top
  have hcount := hd.count
  have hinserted : s.inserted ++ [s.finished] = List.range (s.data.length + 1) := by
    rw [hd.inserted, List.range_succ, hcount]
    rfl
  have hreports := hd.unreported (by simp)
  have hset (pc : Pc) : s.activations.set k (handler k sent s.finished
      (s.finished * (k + 1)) k pc) = blocked k sent s.finished (s.finished * (k + 1)) k ++
        [handler k sent s.finished (s.finished * (k + 1)) k pc] := by
    rw [hr.activations]
    exact stack_set _
  by_cases hfull : numMessages ≤ s.data.length + 1
  · refine ⟨sent,k,.running .reporting,⟨rfl,hr.client,hr.calls,hr.requests,hr.replies,?_⟩,
      ⟨?_,?_,by simp [Front.full],?_,fun _ => hreports,by simp⟩⟩
    · rw [if_pos hfull]
      exact hset .reporting
    · simpa [insertSample, top, handler] using hinserted
    · simp [insertSample, hcount, Front.passed]
    · simpa [insertSample] using fun _ => hfull
  · refine ⟨sent,k,.running .inserted,⟨rfl,hr.client,hr.calls,hr.requests,hr.replies,?_⟩,
      ⟨?_,?_,fun _ => ?_,by simp [Front.full],fun _ => hreports,by simp⟩⟩
    · rw [if_neg hfull]
      exact hset .inserted
    · simpa [insertSample, top, handler] using hinserted
    · simp [insertSample, hcount, Front.passed]
    · simpa [insertSample] using hfull

theorem move_serial (hs : Serial kNumRelays numMessages s)
    (h : Move kNumRelays numMessages s l t) : Serial kNumRelays numMessages t := by
  obtain ⟨sent,k,front,hr,hd⟩ := hs
  have hcalls := hr.calls
  have hrequests := hr.requests
  have hreplies := hr.replies
  have hacts := hr.activations
  have hclient := hr.client
  have hfits := hr.fits
  cases h with
  | send now hidle hlow =>
    have hfront : front = .idle := by
      by_contra hne
      simp [hclient, hne] at hidle
    subst hfront
    obtain rfl : k = 0 := hfits
    refine ⟨now,0,.requested,⟨Nat.zero_le _,?_,?_,?_,hreplies,hacts⟩,
      hd.move ⟨rfl,rfl,rfl⟩ rfl rfl (by simp) (by simp)⟩
    · simpa [State.call, Front.called] using hcalls
    · simp [State.call, Front.called, hcalls]
    · simp [State.call, hrequests, hcalls, Front.called, hopRequest, port, kRelayPortStart]
  | dispatch j m server hrequest hport =>
    rw [hrequests] at hrequest
    obtain ⟨rfl,rfl,rfl⟩ := single_getElem? hrequest
    rw [hopServer_listening hfits] at hport
    cases hport
    refine ⟨sent,k,.running .entered,⟨hfits,hclient,hcalls,?_,hreplies,?_⟩,
      hd.move ⟨rfl,rfl,rfl⟩ rfl rfl (by simp) (by simp)⟩
    · simp [hrequests]
    · simp [hacts, Front.pc, handler]
  | forward a id act hact hserver hpc =>
    obtain ⟨rfl,rfl,rfl⟩ := hr.top hact hpc (by simp)
    have hlt : a < kNumRelays := by
      by_contra hge
      simp [handler, hopServer, hge] at hserver
    obtain rfl : a = id := by simpa [handler, hopServer, hlt] using hserver
    refine ⟨sent,a + 1,.requested,⟨hlt,hclient,?_,?_,hreplies,?_⟩,
      hd.move ⟨rfl,rfl,rfl⟩ rfl rfl (by simp) (by simp)⟩
    · simp [State.call, hcalls, Front.called]
      omega
    · simp [State.call, hrequests, hcalls, Front.called, hopRequest, handler, port]
      omega
    · simp only [hacts, Front.pc, Option.map_some, Option.toList_some, stack_set]
      simp [State.call, blocked_succ, handler, hcalls, Front.called, Nat.add_assoc]
  | insert a now act hact hserver hpc =>
    obtain ⟨rfl,rfl,rfl⟩ := hr.top hact hpc (by simp)
    have hlast : a = kNumRelays := by
      by_contra hne
      have hlt : a < kNumRelays := lt_of_le_of_ne hfits hne
      simp [handler, hopServer, hlt] at hserver
    subst hlast
    exact insert_serial hr hd now
  | report a act r hact hpc hprint =>
    obtain ⟨rfl,rfl,rfl⟩ := hr.top hact hpc (by simp)
    refine ⟨sent,a,.running .exiting,⟨hfits,hclient,hcalls,hrequests,hreplies,?_⟩,
      ⟨hd.inserted,hd.count,hd.low,hd.full,by simp,fun _ => ?_⟩⟩
    · simp only [hacts, Front.pc, Option.map_some, Option.toList_some, stack_set]
      rfl
    · exact ⟨r,by simp [hd.unreported (by simp)],printStats_array hprint⟩
  | ret a act hact hpc =>
    obtain ⟨pc,hpc',hpc⟩ : ∃ pc, (pc = .answered ∨ pc = .inserted) ∧ act.pc = pc := ⟨_,hpc,rfl⟩
    obtain ⟨rfl,rfl,rfl⟩ := hr.top hact hpc (by rintro c rfl; simp at hpc')
    have herase : s.activations.eraseIdx a =
        blocked kNumRelays sent s.finished (s.finished * (kNumRelays + 1)) a := by
      rw [hacts]
      exact stack_eraseIdx
    have hmoved : Recorded numMessages { s with
        activations := s.activations.eraseIdx a } .replied := by
      rcases hpc' with rfl | rfl <;> exact hd.move ⟨rfl,rfl,rfl⟩ rfl rfl (by simp) (by simp)
    refine ⟨sent,a,.replied,⟨?_,hclient,?_,hrequests,?_,?_⟩,
      hmoved.move ⟨rfl,rfl,rfl⟩ rfl rfl (by simp) (by simp)⟩
    · rcases hpc' with rfl | rfl
      · exact (show a < kNumRelays from hfits).le
      · exact (show a = kNumRelays from hfits).le
    · rcases hpc' with rfl | rfl <;> exact hcalls
    · simp [hreplies, handler, hopRequest_msgid]
    · simpa [Front.pc] using herase
  | receive a j c act response hact hpc hreply =>
    rw [hreplies] at hreply
    obtain ⟨rfl,rfl,hc⟩ := single_getElem? hreply
    rw [hacts] at hact
    rcases stack_getElem? hact with ⟨ha,rfl⟩ | ⟨_,htop⟩
    · obtain rfl : k = a + 1 := by
        simp only [handler, Pc.waiting.injEq] at hpc
        simp only [Prod.mk.injEq] at hc
        omega
      refine ⟨sent,a,.running .answered,⟨hfits,hclient,hcalls,hrequests,?_,?_⟩,
        hd.move ⟨rfl,rfl,rfl⟩ rfl rfl (by simp) (by simp)⟩
      · simp [hreplies]
      · simp only [hacts, Front.pc, Option.map_none, Option.toList_none, List.append_nil,
          blocked_succ, stack_set]
        rfl
    · simp [Front.pc] at htop
  | receiveClient j c response hc hreply =>
    rw [hreplies] at hreply
    obtain ⟨rfl,rfl,hpair⟩ := single_getElem? hreply
    rw [hclient] at hc
    obtain rfl : k = 0 := by
      simp only [Prod.mk.injEq] at hpair
      simp only [reduceCtorEq, if_false, Option.some.injEq] at hc
      omega
    refine ⟨sent,0,.idle,⟨rfl,rfl,?_,hrequests,?_,hacts⟩,
      hd.move ⟨rfl,rfl,rfl⟩ rfl rfl (by simp) (by simp)⟩
    · simp only [hcalls, Front.called]
      ring
    · simp [hreplies]

theorem exec_serial (h : exec (step kNumRelays numMessages) init ls = some s) :
    Serial kNumRelays numMessages s := by
  refine exec_invariant ?_ (fun t l u hi hs => move_serial hi (step_move hs)) h
  exact ⟨0,0,.idle,⟨rfl,rfl,by simp [init, Front.called],rfl,rfl,rfl⟩,
    ⟨rfl,rfl,fun _ => .inl rfl,by simp [Front.full],fun _ => rfl,by simp⟩⟩

/-! ## Serialisation -/

theorem route_eq (kNumRelays : ℕ) :
    route kNumRelays = (List.range (kNumRelays + 1)).map (hopServer kNumRelays) := by
  rw [List.range_succ, List.map_append, route]
  congr 1
  · apply List.map_congr_left
    intro i hi
    simp [hopServer, List.mem_range.mp hi]
  · simp [hopServer]

theorem route_nodup (kNumRelays : ℕ) : (route kNumRelays).Nodup := by
  have hinj : Function.Injective Server.relay := fun _ _ h => by simpa using h
  simp [route, List.nodup_append, List.nodup_range.map hinj]

/-- What holds of the handlers and the sink in every reachable state. -/
structure Serialised (kNumRelays numMessages : ℕ) (s : State) : Prop where
  /-- The handlers in progress are relays `0`, …, `k-1`, or all relays and the sink. -/
  handlers : ∃ k ≤ kNumRelays + 1,
    s.activations.map Activation.server = (route kNumRelays).take k
  single : (s.activations.map Activation.server).Nodup
  /-- They serve the request the client is waiting for. -/
  current : ∀ act ∈ s.activations, act.origin = s.finished ∧ s.client ≠ none
  /-- There is a sample of every finished call, and of the current one once inserted. -/
  samples : s.data.length = s.finished + (if s.finished ∈ s.inserted then 1 else 0) ∧
    s.inserted = List.range s.data.length
  unreported : s.data.length < numMessages → s.reports = []
  /-- After the last sample nothing is inserted; its report is still to be printed or was
  printed once. -/
  last : s.data ≠ [] → numMessages ≤ s.data.length →
    (∀ a now, step kNumRelays numMessages s (.insert a now) = none) ∧
    ((s.reports = [] ∧ ∃ a t, step kNumRelays numMessages s (.report a) = some t) ∨
      ∃ r, s.reports = [r] ∧ r.array.Perm s.data)

theorem Represents.servers {front : Front} (h : Represents kNumRelays s sent k front) :
    ∃ n ≤ kNumRelays + 1, s.activations.map Activation.server = (route kNumRelays).take n := by
  have hk : k ≤ kNumRelays := by
    have hfits := h.fits
    rcases front with _ | _ | (_ | _ | _ | _ | _ | _) | _ <;> simp only [Front.Fits] at hfits <;> omega
  rw [h.activations, route_eq]
  cases hpc : front.pc with
  | none =>
    refine ⟨k,by omega,?_⟩
    rw [← List.map_take, List.take_range, Nat.min_eq_left (by omega)]
    simp [blocked, handler, Function.comp_def]
  | some pc =>
    refine ⟨k + 1,by omega,?_⟩
    rw [← List.map_take, List.take_range, Nat.min_eq_left (by omega), List.range_succ]
    simp [blocked, handler, Function.comp_def]

/-- Whatever the interleaving of the servers' threads, the blocking calls serialise them. -/
theorem handlers_serialised (kNumRelays numMessages : ℕ) {ls : List Label} {s : State}
    (h : exec (step kNumRelays numMessages) init ls = some s) :
    Serialised kNumRelays numMessages s := by
  obtain ⟨sent,k,front,hr,hd⟩ := exec_serial h
  have hcount := hd.count
  obtain ⟨n,hn,hservers⟩ := hr.servers
  refine ⟨⟨n,hn,hservers⟩,?_,?_,⟨?_,hd.inserted⟩,?_,?_⟩
  · rw [hservers]
    exact (route_nodup kNumRelays).sublist (List.take_sublist _ _)
  · intro act hact
    obtain ⟨a,ha⟩ := List.mem_iff_getElem?.mp hact
    have hbusy : front ≠ .idle := by
      rintro rfl
      obtain rfl : k = 0 := hr.fits
      simp [hr.activations, Front.pc, blocked] at ha
    rw [hr.client, if_neg hbusy]
    rw [hr.activations] at ha
    rcases stack_getElem? ha with ⟨_,rfl⟩ | ⟨_,htop⟩
    · exact ⟨rfl,by simp⟩
    · obtain ⟨pc,_,rfl⟩ := Option.map_eq_some_iff.mp htop
      exact ⟨rfl,by simp⟩
  · simp only [hd.inserted, List.mem_range]
    cases hp : front.passed <;> simp [hp] at hcount <;> simp [hcount]
  · intro hlow
    refine hd.unreported ?_
    rintro rfl
    exact absurd (hd.full rfl) (by omega)
  · intro hne hfull
    have hlast : front.full = true := by
      by_contra hlow
      rcases hd.low (by simpa using hlow) with hnil | hlt
      · exact hne hnil
      · omega
    refine ⟨fun a now => ?_,?_⟩
    · by_contra hstep
      obtain ⟨t,ht⟩ := Option.ne_none_iff_exists'.mp hstep
      cases step_move ht with
      | insert _ _ act hact hserver hpc =>
        obtain ⟨_,rfl,_⟩ := hr.top hact hpc (by simp)
        simp [Front.full] at hlast
    · have hcases : front = .running .reporting ∨ front = .running .exiting := by
        rcases front with _ | _ | (_ | _ | _ | _ | _ | _) | _ <;> simp_all [Front.full]
      rcases hcases with rfl | rfl
      · obtain rfl : k = kNumRelays := hr.fits
        obtain ⟨r,hprint,_⟩ := printStats_of_ne_nil hne
        have htop : s.activations[k]? =
            some ⟨s.finished * (k + 1) + k,.sink,hopRequest sent k,s.finished,.reporting⟩ := by
          rw [hr.activations, List.getElem?_append_right (by rw [blocked_length]), blocked_length]
          simp [Front.pc, handler, hopServer]
        exact .inl ⟨hd.unreported (by simp),k,by simp [step, htop, hprint]⟩
      · exact .inr (hd.reported rfl)

/-- The last request through one relay, sent at 5 and inserted at 25. -/
def lastRequest : List Label :=
  [.send 5,.dispatch 0,.forward 0,.dispatch 0,.insert 1 25,.report 1]

theorem handlers_serialised_lastRequest :
    ∃ s, exec (step 1 1) init lastRequest = some s ∧ s.data = [10] ∧ Serialised 1 1 s := by
  have hrun : (exec (step 1 1) init lastRequest).map State.data = some [10] := by decide
  obtain ⟨s,hs,hdata⟩ := Option.map_eq_some_iff.mp hrun
  exact ⟨s,hs,hdata,handlers_serialised 1 1 hs⟩

end RelayBench.GrpcThreads
