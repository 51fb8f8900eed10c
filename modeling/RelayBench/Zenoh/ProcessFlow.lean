import RelayBench.Library.LossyHops
import RelayBench.Zenoh.ProcessRoutes

/-! # The hops between processes

Among the processes are one client, one relay of every index below `n` and a sink of index `n`.
Each hop between two of them may lose messages, for good those that were published before its
subscriber was declared, and keeps the order of the others.
-/
namespace RelayBench.ZenohProcesses
open Execution Function LossyHops
open Zenoh (ThriftCrate clientPayload relayPayload sinkTiming clientTiming PAYLOAD_SIZE View
  Documented wire Sendable)
variable {T : ThriftCrate} {view : View T} {numMessages n : ℕ} {ps : List Program}
variable {proc : ℕ → ℕ} {s t : State} {l : Label} {p q k : ℕ}

/-- Process `proc 0` is the client, `proc (k + 1)` the relay of index `k` and `proc (n + 1)` the
sink; other relays and sinks may run as well. -/
structure Chained (ps : List Program) (n : ℕ) (proc : ℕ → ℕ) : Prop where
  client : ∀ p, role ps p = some .client ↔ p = proc 0
  relay : ∀ k < n, ∀ p, role ps p = some (.relay k) ↔ p = proc (k + 1)
  sink : role ps (proc (n + 1)) = some (.sink n)
  noOverflow : NoOverflow ps

/-! ## Who is next -/

theorem Chained.subscribes (h : Chained ps n proc) (hk : k ≤ n) :
    (role ps (proc (k + 1))).bind Role.subscribes = some (k : ℤ) := by
  rcases Nat.lt_or_eq_of_le hk with hlt | rfl
  · rw [(h.relay k hlt _).mpr rfl]
    rfl
  · rw [h.sink]
    rfl

theorem Chained.next_ne (h : Chained ps n proc) (hk : k ≤ n) : proc k ≠ proc (k + 1) := by
  intro he
  have hnext := h.subscribes hk
  cases k with
  | zero =>
    rw [← he, (h.client _).mpr rfl] at hnext
    cases hnext
  | succ k =>
    rw [← he, (h.relay k hk _).mpr rfl] at hnext
    simp [Role.subscribes] at hnext

theorem Chained.lt (h : Chained ps n proc) : n < 2 ^ 31 := by
  have hrole := h.sink
  obtain ⟨program,_,hprogram⟩ := Option.bind_eq_some_iff.mp hrole
  cases program with
  | mpclient => cases hprogram
  | mprelay args =>
    unfold Program.role started at hprogram
    dsimp only at hprogram
    split at hprogram <;> cases hprogram
  | mpsink args =>
    unfold Program.role started at hprogram
    dsimp only at hprogram
    split at hprogram
    · rename_i hstarted
      obtain rfl : _ = (n : ℤ) := Role.sink.inj (Option.some.inj hprogram)
      have hin := Zenoh.mpsink_inI32 hstarted
      have hlt := hin.2
      omega
    · cases hprogram
    · cases hprogram

/-- What comes to a hop of the chain was published by the process before it. -/
theorem Chained.sender (h : Chained ps n proc) (hrouted : Routed ps s) (hk : k ≤ n)
    {m : Message} (hm : m ∈ s.sent p) (hlinked : Linked ps p (proc (k + 1))) : p = proc k := by
  obtain ⟨r,hr,hpublished⟩ := hrouted.sent p m hm
  obtain ⟨hop,hpublishes,hsubscribes⟩ := hlinked
  rw [h.subscribes hk] at hsubscribes
  obtain rfl := Option.some.inj hsubscribes
  rw [hr] at hpublishes
  obtain ⟨j,hj,hpath⟩ := (hpublished.carries k hpublishes).hop_eq h.noOverflow
  obtain rfl : k = j := by exact_mod_cast hj
  have hlast := hpublished.last
  rw [hpath] at hlast
  cases k with
  | zero =>
    cases r with
    | client => exact (h.client p).mp hr
    | relay index => simp [Role.relayed] at hlast
    | sink index => cases hpublishes
  | succ k =>
    rw [List.range_succ, List.map_append, List.map_singleton, List.getLast?_concat] at hlast
    cases r with
    | client => cases hlast
    | relay index =>
      obtain rfl : (k : ℤ) = index := Option.some.inj hlast
      exact (h.relay k hk p).mp hr
    | sink index => cases hlast

theorem Chained.received_sender (h : Chained ps n proc) (hrouted : Routed ps s) (hk : k ≤ n)
    {x : ℕ × Message} (hx : x ∈ s.received (proc (k + 1))) : x.1 = proc k := by
  obtain ⟨hsent,hlinked⟩ := hrouted.received _ x hx
  exact h.sender hrouted hk hsent hlinked

theorem Chained.queue_sender (h : Chained ps n proc) (hrouted : Routed ps s) (hk : k ≤ n)
    {m : Message} (hm : m ∈ s.queue p (proc (k + 1))) : p = proc k := by
  obtain ⟨hsent,hlinked⟩ := hrouted.queue _ _ m hm
  exact h.sender hrouted hk hsent hlinked

/-! ## Hops -/

/-- The message in the hand of a process. -/
def Pc.hand : Pc → List Timing
  | .holding m => [m.timing]
  | _ => []

/-- The hop to the subscriber of `bench/hop{k}`. -/
def hop (proc : ℕ → ℕ) (s : State) (k : ℕ) : Hop Timing where
  sent := (s.sent (proc k)).map Message.timing
  handled := s.handled (proc (k + 1))
  hand := (s.pc (proc (k + 1))).hand
  queue := (s.queue (proc k) (proc (k + 1))).map Message.timing
  lost := (s.lost (proc k) (proc (k + 1))).map Message.timing

/-- A message is published and lost at once. -/
theorem kept_miss {h : Hop Timing} (hk : h.Kept) (m : Timing) :
    Hop.Kept { h with sent := h.sent ++ [m], lost := h.lost ++ [m] } := by
  have hsend := (Hop.Step.send m).kept hk
  have hlose : ({ h with sent := h.sent ++ [m], queue := h.queue ++ [m] } : Hop Timing).queue[
      h.queue.length]? = some m := by simp
  have hmiss := (Hop.Step.lose h.queue.length m hlose).kept hsend
  simpa [List.eraseIdx_append_of_length_le] using hmiss

theorem hop_congr (hsent : t.sent (proc k) = s.sent (proc k))
    (hhandled : t.handled (proc (k + 1)) = s.handled (proc (k + 1)))
    (hhand : (t.pc (proc (k + 1))).hand = (s.pc (proc (k + 1))).hand)
    (hqueue : t.queue (proc k) (proc (k + 1)) = s.queue (proc k) (proc (k + 1)))
    (hlost : t.lost (proc k) (proc (k + 1)) = s.lost (proc k) (proc (k + 1))) :
    hop proc t k = hop proc s k := by
  simp only [hop, hsent, hhandled, hhand, hqueue, hlost]

theorem kept_congr (hkept : (hop proc s k).Kept) (hsent : t.sent (proc k) = s.sent (proc k))
    (hhandled : t.handled (proc (k + 1)) = s.handled (proc (k + 1)))
    (hhand : (t.pc (proc (k + 1))).hand = (s.pc (proc (k + 1))).hand)
    (hqueue : t.queue (proc k) (proc (k + 1)) = s.queue (proc k) (proc (k + 1)))
    (hlost : t.lost (proc k) (proc (k + 1)) = s.lost (proc k) (proc (k + 1))) :
    (hop proc t k).Kept := by
  rw [hop_congr hsent hhandled hhand hqueue hlost]
  exact hkept

theorem goes_hand {r : Role} {pc pc' : Pc} (h : Goes numMessages r pc pc') :
    pc.hand = [] ∧ pc'.hand = [] := by
  cases h <;> exact ⟨rfl,rfl⟩

/-- The subscriber of the hop gets what the process before it publishes, or misses it. -/
theorem put_kept (h : Chained ps n proc) (hk : k ≤ n) (hkept : (hop proc s k).Kept)
    {m : Message} {pc : Pc} :
    (hop proc ((s.put ps (proc k) (topic k) m).goto (proc k) pc) k).Kept := by
  have hhears : Hears ps (proc (k + 1)) (topic k) := by
    rw [Hears, h.subscribes hk]
    rfl
  have hpc : ((s.put ps (proc k) (topic k) m).goto (proc k) pc).pc (proc (k + 1)) =
      s.pc (proc (k + 1)) := by
    rw [goto_pc, put_pc, update_of_ne (h.next_ne hk).symm]
  by_cases hup : (s.pc (proc (k + 1))).Subscribed
  · have hsend := (Hop.Step.send m.timing).kept hkept
    have heq : hop proc ((s.put ps (proc k) (topic k) m).goto (proc k) pc) k =
        { hop proc s k with
          sent := (hop proc s k).sent ++ [m.timing]
          queue := (hop proc s k).queue ++ [m.timing] } := by
      simp [hop, State.put, State.goto, update_of_ne (h.next_ne hk).symm, hhears, hup]
    rw [heq]
    exact hsend
  · have hmiss := kept_miss hkept m.timing
    have heq : hop proc ((s.put ps (proc k) (topic k) m).goto (proc k) pc) k =
        { hop proc s k with
          sent := (hop proc s k).sent ++ [m.timing]
          lost := (hop proc s k).lost ++ [m.timing] } := by
      simp [hop, State.put, State.goto, update_of_ne (h.next_ne hk).symm, hhears, hup]
    rw [heq]
    exact hmiss

theorem queue_put_of_ne {name : String} {m : Message} {p' : ℕ} (hne : p' ≠ p) :
    (s.put ps p name m).queue p' = s.queue p' ∧ (s.put ps p name m).lost p' = s.lost p' ∧
      (s.put ps p name m).sent p' = s.sent p' :=
  ⟨update_of_ne hne _ _,update_of_ne hne _ _,update_of_ne hne _ _⟩

/-- What another process publishes does not come to the hop. -/
theorem put_other {name : String} {m : Message} {pc : Pc} (hne : proc k ≠ p)
    (hhand : ((s.put ps p name m).goto p pc).pc (proc (k + 1)) = s.pc (proc (k + 1))) :
    hop proc ((s.put ps p name m).goto p pc) k = hop proc s k := by
  obtain ⟨hqueue,hlost,hsent⟩ := @queue_put_of_ne ps s p name m _ hne
  exact hop_congr hsent rfl (by rw [hhand]) (congrFun hqueue _) (congrFun hlost _)

/-- The subscriber of the hop is done with the message in its hand. -/
theorem handle_kept (hkept : (hop proc s k).Kept) {m : Message}
    (hpc : s.pc (proc (k + 1)) = .holding m) (hhand : (t.pc (proc (k + 1))).hand = [])
    (hhandled : t.handled (proc (k + 1)) = s.handled (proc (k + 1)) ++ [m.timing])
    (hsent : t.sent (proc k) = s.sent (proc k))
    (hqueue : t.queue (proc k) (proc (k + 1)) = s.queue (proc k) (proc (k + 1)))
    (hlost : t.lost (proc k) (proc (k + 1)) = s.lost (proc k) (proc (k + 1))) :
    (hop proc t k).Kept := by
  have hstep := (Hop.Step.handle m.timing (by simp [hop, hpc, Pc.hand])).kept hkept
  have heq : hop proc t k = { hop proc s k with
      hand := [], handled := (hop proc s k).handled ++ [m.timing] } := by
    simp only [hop, hhand, hhandled, hsent, hqueue, hlost]
  rw [heq]
  exact hstep

theorem update_queue_of_ne {queue : ℕ → ℕ → List Message} {ms : List Message} {p' q' : ℕ}
    (hne : p' ≠ p ∨ q' ≠ q) : update queue p (update (queue p) q ms) p' q' = queue p' q' := by
  rcases eq_or_ne p' p with rfl | hp
  · rw [update_self, update_of_ne (hne.resolve_left (not_not.mpr rfl))]
  · rw [update_of_ne hp]

/-- The processes of the chain do not panic. -/
theorem Chained.not_panics (h : Chained ps n proc) (hdoc : Documented T view)
    (hrouted : Routed ps s) (hk : k ≤ n) {r : Role} (hr : role ps (proc (k + 1)) = some r) :
    ¬Panics T s (proc (k + 1)) r := by
  intro hpanics
  have hsubscribes := h.subscribes hk
  have hholding {m : Message} (hpc : s.pc (proc (k + 1)) = .holding m) :
      Carries ps s.sent k m := by
    obtain ⟨p',hp'⟩ := hrouted.holding _ m hpc
    exact hrouted.carries hp' hsubscribes
  cases hpanics with
  | client i elapsed hpc hnone =>
    rw [Zenoh.clientPayload_wire hdoc (Zenoh.clientTiming_sendable i elapsed)] at hnone
    cases hnone
  | relay index m hpc hnone =>
    have hcarries := hholding hpc
    rw [hcarries.wire, Zenoh.relayPayload_wire hdoc hcarries.sendable] at hnone
    cases hnone
  | read index m hpc hnone =>
    have hcarries := hholding hpc
    rw [hcarries.wire, Zenoh.sinkTiming_wire hdoc hcarries.sendable] at hnone
    cases hnone
  | divide index elapsed m u hpc hread hnone =>
    rw [hr] at hsubscribes
    obtain rfl : index = k := Option.some.inj hsubscribes
    obtain ⟨v,hv⟩ := latency_isSome (hk.trans_lt h.lt) (asI64 elapsed) u.nanosec
    rw [hv] at hnone
    cases hnone

theorem Chained.ne_client (h : Chained ps n proc) (hk : k ≤ n) : proc (k + 1) ≠ proc 0 := by
  intro he
  have hsubscribes := h.subscribes hk
  rw [he, (h.client _).mpr rfl] at hsubscribes
  cases hsubscribes

/-- The relay before a hop of the chain publishes on its topic. -/
theorem Chained.publishes (h : Chained ps n proc) (hk : k ≤ n) {index : ℤ}
    (hrole : role ps (proc k) = some (.relay index)) : asI32 (index + 1) = k := by
  cases k with
  | zero =>
    rw [(h.client _).mpr rfl] at hrole
    cases hrole
  | succ k =>
    rw [(h.relay k hk _).mpr rfl] at hrole
    obtain rfl : (k : ℤ) = index := Role.relay.inj (Option.some.inj hrole)
    have hlt := h.lt
    exact_mod_cast asI32_of_lt (show k + 1 < 2 ^ 31 by omega)

/-- A step that handles one message, of this process or of another. -/
theorem handled_kept (hkept : (hop proc s k).Kept) {m : Message} {pc : Pc}
    (hpc : s.pc p = .holding m) (hpc' : t.pc = update s.pc p pc) (hhand : pc.hand = [])
    (hhandled : t.handled = update s.handled p (s.handled p ++ [m.timing]))
    (hsent : t.sent (proc k) = s.sent (proc k))
    (hqueue : t.queue (proc k) (proc (k + 1)) = s.queue (proc k) (proc (k + 1)))
    (hlost : t.lost (proc k) (proc (k + 1)) = s.lost (proc k) (proc (k + 1))) :
    (hop proc t k).Kept := by
  rcases eq_or_ne (proc (k + 1)) p with rfl | hne
  · refine handle_kept hkept hpc ?_ ?_ hsent hqueue hlost
    · rw [hpc', update_self, hhand]
    · rw [hhandled, update_self]
  · refine kept_congr hkept hsent ?_ ?_ hqueue hlost
    · rw [hhandled, update_of_ne hne]
    · rw [hpc', update_of_ne hne]

theorem forward_kept (h : Chained ps n proc) (hk : k ≤ n) (hkept : (hop proc s k).Kept)
    {index : ℤ} {m m' : Message} {pc : Pc} (hrole : role ps p = some (.relay index))
    (hpc : s.pc p = .holding m) (hhand : pc.hand = []) (count : ℕ → ℕ) :
    (hop proc { (s.put ps p (topic (asI32 (index + 1))) m').goto p pc with
      messageCount := count
      handled := update s.handled p (s.handled p ++ [m.timing]) } k).Kept := by
  rcases eq_or_ne (proc k) p with rfl | hne
  · have hother := (h.next_ne hk).symm
    have hput := @put_kept n ps proc s k h hk hkept m' pc
    rw [h.publishes hk hrole]
    refine kept_congr hput rfl ?_ rfl rfl rfl
    dsimp only
    rw [update_of_ne hother]
    rfl
  · obtain ⟨hqueue,hlost,hsent⟩ :=
      @queue_put_of_ne ps s p (topic (asI32 (index + 1))) m' _ hne
    exact handled_kept hkept hpc rfl hhand rfl hsent (congrFun hqueue _) (congrFun hlost _)

theorem take_kept (h : Chained ps n proc) (hrouted : Routed ps s) (hk : k ≤ n)
    (hkept : (hop proc s k).Kept) {m : Message} {rest : List Message}
    (hpc : s.pc q = .receiving) (hqueue : s.queue p q = m :: rest) (received : ℕ → List (ℕ × Message)) :
    (hop proc { s.goto q (.holding m) with
      queue := update s.queue p (update (s.queue p) q rest)
      received := received } k).Kept := by
  rcases eq_or_ne (proc (k + 1)) q with rfl | hne
  · obtain rfl := h.queue_sender hrouted hk (p := p) (m := m) (by simp [hqueue])
    have hstep := (Hop.Step.take m.timing (rest.map Message.timing) (by simp [hop, hpc, Pc.hand])
      (by simp [hop, hqueue])).kept hkept
    refine (congrArg Hop.Kept ?_).mp hstep
    simp [hop, Pc.hand]
  · refine kept_congr hkept rfl rfl ?_ (update_queue_of_ne (.inr hne)) rfl
    dsimp only
    rw [goto_pc, update_of_ne hne]

theorem lose_kept (h : Chained ps n proc) (hrouted : Routed ps s) (hk : k ≤ n)
    (hkept : (hop proc s k).Kept) {j : ℕ} {m : Message} (hm : (s.queue p q)[j]? = some m) :
    (hop proc { s with
      queue := update s.queue p (update (s.queue p) q ((s.queue p q).eraseIdx j))
      lost := update s.lost p (update (s.lost p) q (s.lost p q ++ [m])) } k).Kept := by
  rcases eq_or_ne (proc (k + 1)) q with rfl | hne
  · obtain rfl := h.queue_sender hrouted hk (p := p) (m := m) (List.mem_of_getElem? hm)
    have hstep := (Hop.Step.lose j m.timing (by simp [hop, hm])).kept hkept
    refine (congrArg Hop.Kept ?_).mp hstep
    simp [hop, List.eraseIdx_map]
  · exact kept_congr hkept rfl rfl rfl (update_queue_of_ne (.inr hne))
      (update_queue_of_ne (.inr hne))

theorem move_kept (h : Chained ps n proc) (hdoc : Documented T view) (hrouted : Routed ps s)
    (hk : k ≤ n) (hkept : (hop proc s k).Kept) (hm : Move T numMessages ps s l t) :
    (hop proc t k).Kept := by
  cases hm with
  | goto p r pc hrole hgoes =>
    refine kept_congr hkept rfl rfl ?_ rfl rfl
    rw [goto_pc]
    rcases eq_or_ne (proc (k + 1)) p with heq | hne
    · rw [heq, update_self, (goes_hand hgoes).1, (goes_hand hgoes).2]
    · rw [update_of_ne hne]
  | publish p i elapsed payload hrole hpc hlow hpayload =>
    obtain rfl := (h.client p).mp hrole
    cases k with
    | zero => exact put_kept h hk hkept
    | succ k =>
      have hpc' := h.ne_client hk
      rw [put_other (h.ne_client (Nat.le_of_succ_le hk)) (by rw [goto_pc, update_of_ne hpc', put_pc])]
      exact hkept
  | take q p m rest hpc hqueue => exact take_kept h hrouted hk hkept hpc hqueue _
  | forward p index m payload hrole hpc hpayload =>
    exact forward_kept h hk hkept hrole hpc (by split <;> rfl) _
  | sample p index elapsed m u v hrole hpc hread hv hlow =>
    obtain ⟨rfl,_⟩ := hrouted.sample hdoc hrole hpc hread hv
    exact handled_kept hkept hpc rfl rfl rfl rfl rfl rfl
  | report p index elapsed m u v r hrole hpc hread hv hfull hprint =>
    obtain ⟨rfl,_⟩ := hrouted.sample hdoc hrole hpc hread hv
    exact handled_kept hkept hpc rfl rfl rfl rfl rfl rfl
  | panic p r hrole hpanics =>
    refine kept_congr hkept rfl rfl ?_ rfl rfl
    rcases eq_or_ne (proc (k + 1)) p with rfl | hne
    · exact absurd hpanics (h.not_panics hdoc hrouted hk hrole)
    · rw [goto_pc, update_of_ne hne]
  | lose p q j m hj => exact lose_kept h hrouted hk hkept hj

theorem exec_kept (h : Chained ps n proc) (hdoc : Documented T view) {ls : List Label}
    (hrun : exec (step T numMessages ps) init ls = some s) (hk : k ≤ n) : (hop proc s k).Kept := by
  have hboth : Routed ps s ∧ (hop proc s k).Kept := by
    refine @exec_invariant _ _ _ (fun s => Routed ps s ∧ (hop proc s k).Kept) _
      ⟨init_routed ps,kept_empty⟩ ?_ ls s hrun
    rintro t l u ⟨hrouted,hkept⟩ hs
    have hm := step_move hs
    exact ⟨move_routed hdoc hrouted hm,move_kept h hdoc hrouted hk hkept hm⟩
  exact hboth.2

end RelayBench.ZenohProcesses
