import RelayBench.Common.Timing

/-! # Ports of the call chains

The gRPC and both thrift programs wire their servers alike: relay `i` listens on port
`start + i` and connects to the next port, the sink listens on port `start + N`.
-/
namespace RelayBench.Ports
variable {start kNumRelays i p : ℕ}

inductive Server
  | relay (id : ℕ)
  | sink
deriving DecidableEq, Repr

/-- The servers in the order `main` starts them, each with its port. -/
def servers (start kNumRelays : ℕ) : List (ℕ × Server) :=
  (List.range kNumRelays).map (fun id => (id + start,.relay id)) ++ [(kNumRelays + start,.sink)]

/-- The server a connection to port `p` reaches. -/
def listening (start kNumRelays p : ℕ) : Option Server :=
  ((servers start kNumRelays).find? (fun s => s.1 = p)).map Prod.snd

/-- The servers that a call to relay 0 is meant to visit. -/
def route (kNumRelays : ℕ) : List Server :=
  (List.range kNumRelays).map Server.relay ++ [.sink]

theorem mem_servers {s : ℕ × Server} : s ∈ servers start kNumRelays ↔
    (∃ id < kNumRelays, s = (id + start,.relay id)) ∨ s = (kNumRelays + start,.sink) := by
  simp only [servers, List.mem_append, List.mem_map, List.mem_range, List.mem_singleton,
    eq_comm (a := s)]

theorem listening_mem {s : Server} (h : listening start kNumRelays p = some s) :
    (p,s) ∈ servers start kNumRelays := by
  obtain ⟨⟨q,s'⟩,hfind,rfl⟩ := Option.map_eq_some_iff.mp h
  have hport : q = p := by simpa using List.find?_some hfind
  exact hport ▸ List.mem_of_find?_eq_some hfind

/-- The servers' ports are distinct. -/
theorem mem_listening {s : Server} (h : (p,s) ∈ servers start kNumRelays) :
    listening start kNumRelays p = some s := by
  obtain ⟨s',hfind⟩ : ∃ s', listening start kNumRelays p = some s' := by
    rw [← Option.isSome_iff_exists]
    simp only [listening, Option.isSome_map, List.find?_isSome, decide_eq_true_eq]
    exact ⟨_,h,rfl⟩
  rw [hfind]
  have hmem := mem_servers.mp (listening_mem hfind)
  have hs := mem_servers.mp h
  simp only [Prod.mk.injEq] at hmem hs
  grind

theorem listening_relay (h : i < kNumRelays) :
    listening start kNumRelays (i + start) = some (.relay i) :=
  mem_listening (mem_servers.mpr (.inl ⟨i,h,rfl⟩))

theorem listening_sink : listening start kNumRelays (kNumRelays + start) = some .sink :=
  mem_listening (mem_servers.mpr (.inr rfl))

theorem relay_of_listening (h : listening start kNumRelays p = some (.relay i)) :
    i < kNumRelays ∧ p = i + start := by
  have hmem := mem_servers.mp (listening_mem h)
  simp only [Prod.mk.injEq, Server.relay.injEq, reduceCtorEq, and_false, or_false] at hmem
  grind

end RelayBench.Ports
