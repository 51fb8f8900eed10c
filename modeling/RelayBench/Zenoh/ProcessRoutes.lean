import RelayBench.Zenoh.Delivery
import RelayBench.Zenoh.Processes

/-! # Where a message has been

Whatever programs were started and in whatever order, what a process receives is a message that
some client published, with the client's bytes, and it has passed one relay of every hop before.
-/
namespace RelayBench.ZenohProcesses
open Execution Function
open Zenoh (ThriftCrate clientPayload relayPayload sinkTiming clientTiming PAYLOAD_SIZE View
  Documented wire Sendable documentedCrate documentedCrate_documented)
variable {T : ThriftCrate} {view : View T} {numMessages : ℕ} {ps : List Program} {s t : State}
variable {l : Label} {p q : ℕ}

/-! ## Routes -/

/-- The relays that a message has passed after this many hops. -/
def pathTo (n : ℕ) : List ℤ := (List.range n).map (fun k : ℕ => asI32 k)

/-- A message that has come to this hop. -/
structure Carries (ps : List Program) (sent : ℕ → List Message) (hop : ℤ) (m : Message) : Prop where
  path : ∃ n : ℕ, asI32 n = hop ∧ m.path = pathTo n
  wire : m.payload = wire m.timing
  sendable : Sendable PAYLOAD_SIZE m.timing
  relayed : ∀ i ∈ m.path, ∃ p, role ps p = some (.relay i)
  origin : ∃ c, role ps c = some .client ∧ m.timing ∈ (sent c).map Message.timing

/-- What `p` publishes is what `q` subscribes to. -/
def Linked (ps : List Program) (p q : ℕ) : Prop :=
  ∃ hop, (role ps p).bind Role.publishes = some hop ∧ (role ps q).bind Role.subscribes = some hop

def Role.relayed : Role → Option ℤ
  | .relay index => some index
  | _ => none

/-- What a relay has published last passed the relay itself. -/
structure Published (ps : List Program) (sent : ℕ → List Message) (r : Role) (m : Message) : Prop where
  carries : ∀ hop, r.publishes = some hop → Carries ps sent hop m
  last : m.path.getLast? = r.relayed

structure Routed (ps : List Program) (s : State) : Prop where
  sent : ∀ p, ∀ m ∈ s.sent p, ∃ r, role ps p = some r ∧ Published ps s.sent r m
  queue : ∀ p q, ∀ m ∈ s.queue p q, m ∈ s.sent p ∧ Linked ps p q
  received : ∀ q, ∀ x ∈ s.received q, x.2 ∈ s.sent x.1 ∧ Linked ps x.1 q
  holding : ∀ q m, s.pc q = .holding m → ∃ p, (p,m) ∈ s.received q

theorem init_routed (ps : List Program) : Routed ps init where
  sent := by simp [init]
  queue := by simp [init]
  received := by simp [init]
  holding := by simp [init]

theorem asI32_succ (n : ℕ) : asI32 (asI32 n + 1) = asI32 (n + 1 : ℕ) := by
  unfold asI32
  push_cast
  exact Int.bmod_add_bmod

theorem pathTo_succ {n : ℕ} : pathTo (n + 1) = pathTo n ++ [asI32 n] := by
  rw [pathTo, List.range_succ, List.map_append]
  rfl

/-- Nothing that was published is taken back. -/
def Grows (sent sent' : ℕ → List Message) : Prop := ∀ p, sent p ⊆ sent' p

variable {sent sent' : ℕ → List Message}

theorem Carries.grows {hop : ℤ} {m : Message} (h : Carries ps sent hop m)
    (hgrows : Grows sent sent') : Carries ps sent' hop m := by
  obtain ⟨c,hc,horigin⟩ := h.origin
  obtain ⟨x,hx,hxm⟩ := List.mem_map.mp horigin
  exact ⟨h.path,h.wire,h.sendable,h.relayed,c,hc,List.mem_map.mpr ⟨x,hgrows c hx,hxm⟩⟩

theorem Published.grows {r : Role} {m : Message} (h : Published ps sent r m)
    (hgrows : Grows sent sent') : Published ps sent' r m := ⟨fun hop hr => (h.carries hop hr).grows hgrows,h.last⟩

/-- What a process has received has come to its hop. -/
theorem Routed.carries (h : Routed ps s) {x : ℕ × Message} (hx : x ∈ s.received q) {hop : ℤ}
    (hq : (role ps q).bind Role.subscribes = some hop) : Carries ps s.sent hop x.2 := by
  obtain ⟨hsent,hop',hpublishes,hsubscribes⟩ := h.received q x hx
  obtain ⟨r,hr,hpublished⟩ := h.sent x.1 x.2 hsent
  rw [hq] at hsubscribes
  cases hsubscribes
  rw [hr] at hpublishes
  exact hpublished.carries hop hpublishes

/-- Only what a message carries matters when the process goes on. -/
theorem Routed.frame (h : Routed ps s) (hsent : t.sent = s.sent) (hreceived : t.received = s.received)
    (hqueue : ∀ p q, t.queue p q ⊆ s.queue p q)
    (hholding : ∀ q m, t.pc q = .holding m → s.pc q = .holding m) : Routed ps t := by
  refine ⟨fun p m hm => ?_,fun p q m hm => ?_,fun q x hx => ?_,fun q m hm => ?_⟩
  · rw [hsent] at hm ⊢
    exact h.sent p m hm
  · rw [hsent]
    exact h.queue p q m (hqueue p q hm)
  · rw [hreceived] at hx
    rw [hsent]
    exact h.received q x hx
  · rw [hreceived]
    exact h.holding q m (hholding q m hm)

/-- A process publishes on its topic. -/
theorem Routed.put (h : Routed ps s) {r : Role} {hop : ℤ} {m : Message} {pc : Pc}
    (hrole : role ps p = some r) (hhop : r.publishes = some hop)
    (hm : Published ps (s.put ps p (topic hop) m).sent r m) (hpc : ∀ m, pc ≠ .holding m) :
    Routed ps ((s.put ps p (topic hop) m).goto p pc) := by
  have hgrows : Grows s.sent (s.put ps p (topic hop) m).sent := fun _ => sent_subset_put
  refine ⟨fun p' m' hm' => ?_,fun p' q m' hm' => ?_,fun q x hx => ?_,fun q m' hm' => ?_⟩
  · rw [goto_sent] at hm'
    rcases mem_put_sent hm' with hold | ⟨rfl,rfl⟩
    · obtain ⟨r',hr',hpublished⟩ := h.sent p' m' hold
      exact ⟨r',hr',hpublished.grows hgrows⟩
    · exact ⟨r,hrole,hm⟩
  · rw [goto_queue] at hm'
    rcases mem_put_queue hm' with hold | ⟨rfl,rfl,hhears⟩
    · obtain ⟨hsent,hlinked⟩ := h.queue p' q m' hold
      exact ⟨hgrows p' hsent,hlinked⟩
    · obtain ⟨hop',hsubscribes,hname⟩ := Option.map_eq_some_iff.mp hhears
      obtain rfl := topic_injective hname
      exact ⟨by simp,hop',by rw [hrole]; exact hhop,hsubscribes⟩
  · obtain ⟨hsent,hlinked⟩ := h.received q x hx
    exact ⟨hgrows x.1 hsent,hlinked⟩
  · rw [goto_pc, put_pc] at hm'
    rcases eq_or_ne q p with rfl | hne
    · rw [update_self] at hm'
      exact absurd hm' (hpc m')
    · rw [update_of_ne hne] at hm'
      exact h.holding q m' hm'

theorem Carries.forward {index : ℤ} {m : Message} (hrole : role ps p = some (.relay index))
    (h : Carries ps sent index m) :
    Carries ps sent (asI32 (index + 1)) ⟨Zenoh.wire m.timing,m.timing,m.path ++ [index]⟩ := by
  obtain ⟨⟨n,hn,hpath⟩,_,hsendable,hrelayed,horigin⟩ := h
  refine ⟨⟨n + 1,?_,?_⟩,rfl,hsendable,fun i hi => ?_,horigin⟩
  · rw [← hn, asI32_succ]
  · dsimp only
    rw [hpath, pathTo_succ, hn]
  · rcases List.mem_append.mp hi with hi | hi
    · exact hrelayed i hi
    · obtain rfl := List.mem_singleton.mp hi
      exact ⟨p,hrole⟩

theorem goes_not_holding {r : Role} {pc pc' : Pc} (h : Goes numMessages r pc pc') (m : Message) :
    pc' ≠ .holding m := by
  cases h <;> simp

theorem holding_goto {pc : Pc} (hpc : ∀ m, pc ≠ .holding m) {m : Message}
    (h : (s.goto p pc).pc q = .holding m) : s.pc q = .holding m := by
  rw [goto_pc] at h
  rcases eq_or_ne q p with rfl | hne
  · rw [update_self] at h
    exact absurd h (hpc m)
  · rwa [update_of_ne hne] at h

theorem Routed.goto (h : Routed ps s) {pc : Pc} (hpc : ∀ m, pc ≠ .holding m) :
    Routed ps (s.goto p pc) :=
  h.frame rfl rfl (fun _ _ => List.Subset.refl _) (fun _ _ hm => holding_goto hpc hm)

theorem update_subset {queue : ℕ → ℕ → List Message} {ms : List Message} (hms : ms ⊆ queue p q)
    (p' q' : ℕ) : update queue p (update (queue p) q ms) p' q' ⊆ queue p' q' := by
  rcases eq_or_ne p' p with rfl | hp
  · rw [update_self]
    rcases eq_or_ne q' q with rfl | hq
    · rwa [update_self]
    · rw [update_of_ne hq]
      exact List.Subset.refl _
  · rw [update_of_ne hp]
    exact List.Subset.refl _

theorem move_routed (hdoc : Documented T view) (h : Routed ps s)
    (hm : Move T numMessages ps s l t) : Routed ps t := by
  cases hm with
  | goto p r pc hrole hgoes => exact h.goto (goes_not_holding hgoes)
  | publish p i elapsed payload hrole hpc hlow hpayload =>
    have hsendable := Zenoh.clientTiming_sendable i elapsed
    rw [Zenoh.clientPayload_wire hdoc hsendable] at hpayload
    obtain rfl := Option.some.inj hpayload
    refine h.put hrole rfl ⟨fun hop hhop => ?_,rfl⟩ (by simp)
    cases hhop
    refine ⟨⟨0,by decide,rfl⟩,rfl,hsendable,by simp,p,hrole,?_⟩
    simp
  | take q p m rest hpc hqueue =>
    obtain ⟨hsent,hlinked⟩ := h.queue p q m (by simp [hqueue])
    refine ⟨h.sent,fun p' q' m' hm' => ?_,fun q' x hx => ?_,fun q' m' hm' => ?_⟩
    · exact h.queue p' q' m' (update_subset (by simp [hqueue]) p' q' hm')
    · rcases eq_or_ne q' q with rfl | hne
      · simp only [update_self] at hx
        rcases List.mem_append.mp hx with hx | hx
        · exact h.received q' x hx
        · obtain rfl := List.mem_singleton.mp hx
          exact ⟨hsent,hlinked⟩
      · exact h.received q' x (by simpa [update_of_ne hne] using hx)
    · rcases eq_or_ne q' q with rfl | hne
      · obtain rfl : m = m' := by simpa using hm'
        exact ⟨p,by simp⟩
      · obtain ⟨p',hp'⟩ := h.holding q' m' (by simpa [update_of_ne hne] using hm')
        exact ⟨p',by simpa [update_of_ne hne] using hp'⟩
  | forward p index m payload hrole hpc hpayload =>
    obtain ⟨p',hp'⟩ := h.holding p m hpc
    have hcarries := h.carries hp' (show (role ps p).bind Role.subscribes = some index by
      rw [hrole]; rfl)
    rw [hcarries.wire, Zenoh.relayPayload_wire hdoc hcarries.sendable] at hpayload
    obtain rfl := Option.some.inj hpayload
    have hgrows : Grows s.sent (s.put ps p (topic (asI32 (index + 1)))
      ⟨wire m.timing,m.timing,m.path ++ [index]⟩).sent := fun _ => sent_subset_put
    have hput : Routed ps ((s.put ps p (topic (asI32 (index + 1)))
        ⟨wire m.timing,m.timing,m.path ++ [index]⟩).goto p
          (if s.messageCount p + 1 = numMessages then .sleeping else .receiving)) := by
      refine h.put hrole rfl ⟨fun hop hhop => ?_,?_⟩ (fun m' => ?_)
      · cases hhop
        exact (hcarries.forward hrole).grows hgrows
      · simp [Role.relayed]
      · split <;> simp
    exact hput.frame rfl rfl (fun _ _ => List.Subset.refl _) (fun _ _ hm => hm)
  | sample p index elapsed m u v hrole hpc hread hv hlow =>
    exact (h.goto (by simp)).frame rfl rfl (fun _ _ => List.Subset.refl _) (fun _ _ hm => hm)
  | report p index elapsed m u v r hrole hpc hread hv hfull hprint =>
    exact (h.goto (by simp)).frame rfl rfl (fun _ _ => List.Subset.refl _) (fun _ _ hm => hm)
  | panic p r hrole hpanics => exact h.goto (by simp)
  | lose p q j m hj =>
    exact h.frame rfl rfl (update_subset (List.eraseIdx_subset)) (fun _ _ hm => hm)

theorem exec_routed (hdoc : Documented T view) {ls : List Label}
    (h : exec (step T numMessages ps) init ls = some s) : Routed ps s :=
  exec_invariant (init_routed ps) (fun _ _ _ hi hs => move_routed hdoc hi (step_move hs)) h

/-- No relay was given the index at which the next hop's number overflows. -/
def NoOverflow (ps : List Program) : Prop := ∀ p, role ps p ≠ some (.relay (2 ^ 31 - 1))

theorem Carries.hop_eq {hop : ℤ} {m : Message} (hno : NoOverflow ps) (h : Carries ps sent hop m) :
    ∃ n : ℕ, hop = n ∧ m.path = (List.range n).map (fun k : ℕ => (k : ℤ)) := by
  obtain ⟨n,rfl,hpath⟩ := h.path
  have hn : n < 2 ^ 31 := by
    by_contra hge
    have hlast : asI32 ((2 ^ 31 - 1 : ℕ) : ℤ) = 2 ^ 31 - 1 := by
      rw [asI32_of_lt (by norm_num)]
      norm_num
    have hmem : (2 ^ 31 - 1 : ℤ) ∈ m.path := by
      rw [hpath, ← hlast]
      exact List.mem_map.mpr ⟨2 ^ 31 - 1,List.mem_range.mpr (by omega),rfl⟩
    obtain ⟨p,hp⟩ := h.relayed _ hmem
    exact hno p hp
  refine ⟨n,asI32_of_lt hn,hpath.trans ?_⟩
  refine List.map_congr_left (fun k hk => ?_)
  have hlt := List.mem_range.mp hk
  exact asI32_of_lt (hlt.trans hn)

/-! ## Samples -/

/-- The sink computed this value from a message it received. -/
def Sample (ps : List Program) (s : State) (q : ℕ) (v : ℤ) : Prop :=
  ∃ index, role ps q = some (.sink index) ∧ ∃ x ∈ s.received q, ∃ elapsed : ℕ,
    latency index (asI64 elapsed) x.2.timing.nanosec = some v

structure Sampled (ps : List Program) (s : State) : Prop where
  latencyVec : ∀ q, ∀ v ∈ s.latencyVec q, Sample ps s q v
  reports : ∀ q, ∀ r ∈ s.reports q, ∀ v ∈ r.array, Sample ps s q v

theorem Sample.mono {v : ℤ} (h : Sample ps s q v) (hreceived : s.received q ⊆ t.received q) :
    Sample ps t q v := by
  obtain ⟨index,hq,x,hx,hv⟩ := h
  exact ⟨index,hq,x,hreceived hx,hv⟩

theorem Sampled.frame (h : Sampled ps s) (hvec : t.latencyVec = s.latencyVec)
    (hreports : t.reports = s.reports) (hreceived : ∀ q, s.received q ⊆ t.received q) :
    Sampled ps t := by
  refine ⟨fun q v hv => ?_,fun q r hr v hv => ?_⟩
  · rw [hvec] at hv
    exact (h.latencyVec q v hv).mono (hreceived q)
  · rw [hreports] at hr
    exact (h.reports q r hr v hv).mono (hreceived q)

/-- The latency that a sink computes is one of the message in its hand. -/
theorem Routed.sample (hdoc : Documented T view) (h : Routed ps s) {index : ℤ} {elapsed : ℕ}
    {m : Message} {u : Timing} {v : ℤ} (hrole : role ps p = some (.sink index))
    (hpc : s.pc p = .holding m) (hread : sinkTiming T PAYLOAD_SIZE m.payload = some u)
    (hv : latency index (asI64 elapsed) u.nanosec = some v) :
    u = m.timing ∧ Sample ps s p v := by
  obtain ⟨p',hp'⟩ := h.holding p m hpc
  have hcarries := h.carries hp' (show (role ps p).bind Role.subscribes = some index by
    rw [hrole]; rfl)
  rw [hcarries.wire, Zenoh.sinkTiming_wire hdoc hcarries.sendable] at hread
  obtain rfl := Option.some.inj hread
  exact ⟨rfl,index,hrole,(p',m),hp',elapsed,hv⟩

end RelayBench.ZenohProcesses
